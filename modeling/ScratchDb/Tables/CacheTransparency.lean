import ScratchDb.Storage.SharedCache
import ScratchDb.Tables.CacheState

/-!
# A cache over several files is transparent

As long as no dirty page of another file is written through the descriptor of a
call, each page of each file is in its frame or in its block, and so is what was
last stored there. The first page that is written through a foreign descriptor
lands in that file.
-/

namespace ScratchDb

open PageCache

namespace SharedCache

variable {s s' : SharedCache} {key : CachedPageKey} {frame : CachedPageFrame} {fd : Option Path}

/-! ## Writes -/

theorem writeFrame_isSome (h : (s.files (fd.getD frame.key.tableFile)).isSome = true) :
    ∃ s', s.writeFrame frame fd = some s' := by
  obtain ⟨blocks, hblocks⟩ := Option.isSome_iff_exists.mp h
  exact ⟨_, by rw [writeFrame, hblocks, Option.map_some]⟩

/-- What a write of a frame does. -/
theorem writeFrame_eq_some (h : s.writeFrame frame fd = some s') :
    s'.cache = s.cache ∧ s'.writes =
      s.writes ++ [⟨frame.key, fd.getD frame.key.tableFile, frame.key.pageId⟩] := by
  obtain ⟨blocks, -, rfl⟩ := Option.map_eq_some_iff.mp h
  exact ⟨rfl, rfl⟩

/-- A frame written to its own file. -/
theorem onDisk_of_writeFrame (h : s.writeFrame frame fd = some s')
    (hown : fd.getD frame.key.tableFile = frame.key.tableFile) (key : CachedPageKey) :
    s'.onDisk key = if key = frame.key then frame.page else s.onDisk key := by
  obtain ⟨blocks, hblocks, rfl⟩ := Option.map_eq_some_iff.mp h
  rw [hown] at hblocks
  simp only [onDisk, hown]
  by_cases hfile : key.tableFile = frame.key.tableFile
  · rw [hfile, Function.update_self, Option.getD_some, getD_writeBlock, hblocks, Option.getD_some]
    by_cases hpage : key.pageId = frame.key.pageId
    · have hkey : key = frame.key := by
        cases key
        cases hframe : frame.key
        simp_all
      rw [if_pos hpage, if_pos hkey]
    · rw [if_neg hpage, if_neg fun hkey => hpage (by rw [hkey])]
  · rw [Function.update_of_ne hfile, if_neg fun hkey => hfile (by rw [hkey])]

/-! ## Room -/

theorem makeRoom_of_room (fd : Option Path) (rounds : Nat)
    (h : s.cache.pages.length < s.cache.capacity) : s.makeRoom fd rounds = (true, s) := by
  cases rounds with
  | zero => rfl
  | succ rounds => rw [makeRoom, if_pos h]

theorem evictOnePage_eq_some (h : s.evictOnePage fd = some s') :
    ∃ victim written, s.cache.victim = some victim ∧
      (if victim.isDirty then s.writeFrame victim fd else some s) = some written ∧
      s' = written.onCache (·.erase victim.key) ∧ written.cache = s.cache := by
  obtain ⟨victim, hvictim, h⟩ := Option.bind_eq_some_iff.mp h
  obtain ⟨written, hwritten, rfl⟩ := Option.map_eq_some_iff.mp h
  refine ⟨victim, written, hvictim, hwritten, rfl, ?_⟩
  split at hwritten
  · exact (writeFrame_eq_some hwritten).1
  · cases hwritten
    rfl

theorem length_of_evictOnePage (h : s.evictOnePage fd = some s') :
    s'.cache.pages.length < s.cache.pages.length ∧ s'.cache.capacity = s.cache.capacity := by
  obtain ⟨victim, written, hvictim, -, rfl, hcache⟩ := evictOnePage_eq_some h
  have hfind := (find_of_victim hvictim).1
  have hlt : (s.cache.erase victim.key).pages.length < s.cache.pages.length :=
    length_erase_lt (by rw [hfind]; exact Option.some_ne_none _)
  rw [← hcache] at hlt ⊢
  exact ⟨hlt, rfl⟩

/-- One page leaves the cache at most. -/
theorem makeRoom_eq (hsound : s.cache.Sound) (fd : Option Path) :
    s.makeRoom fd s.cache.pages.length =
      if s.cache.pages.length < s.cache.capacity then (true, s)
      else ((s.evictOnePage fd).isSome, (s.evictOnePage fd).getD s) := by
  have hroom := hsound.room
  have hpos := hsound.positive
  split
  · rename_i hlt
    exact makeRoom_of_room fd _ hlt
  · rename_i hfull
    obtain ⟨rounds, hrounds⟩ : ∃ rounds, s.cache.pages.length = rounds + 1 :=
      ⟨s.cache.pages.length - 1, by omega⟩
    rw [hrounds, makeRoom, if_neg hfull]
    cases hevict : s.evictOnePage fd with
    | none => rfl
    | some s' =>
      obtain ⟨hlt, hcapacity⟩ := length_of_evictOnePage hevict
      exact makeRoom_of_room fd rounds (by omega)

/-! ## Bookkeeping -/

theorem sound_evictOnePage (hsound : s.cache.Sound) (h : s.evictOnePage fd = some s') :
    s'.cache.Sound := by
  obtain ⟨victim, written, -, -, rfl, hcache⟩ := evictOnePage_eq_some h
  have herased := hsound.erase victim.key
  rw [← hcache] at herased
  exact herased

/-- What making room leaves: the bookkeeping, and a place where it succeeds. -/
theorem sound_makeRoom (hsound : s.cache.Sound) (fd : Option Path) :
    (s.makeRoom fd s.cache.pages.length).2.cache.Sound ∧
      ((s.makeRoom fd s.cache.pages.length).1 = true →
        (s.makeRoom fd s.cache.pages.length).2.cache.pages.length <
          (s.makeRoom fd s.cache.pages.length).2.cache.capacity) ∧
      ∀ key, s.cache.find key = none →
        (s.makeRoom fd s.cache.pages.length).2.cache.find key = none := by
  rw [makeRoom_eq hsound]
  split
  · rename_i hlt
    exact ⟨hsound, fun _ => hlt, fun key h => h⟩
  · have hroom := hsound.room
    cases hevict : s.evictOnePage fd with
    | none => exact ⟨hsound, fun h => absurd h Bool.false_ne_true, fun key h => h⟩
    | some s' =>
      obtain ⟨hlt, hcapacity⟩ := length_of_evictOnePage hevict
      have hplace : s'.cache.pages.length < s'.cache.capacity := by omega
      refine ⟨sound_evictOnePage hsound hevict, fun _ => hplace, fun key hkey => ?_⟩
      obtain ⟨victim, written, hvictim, -, rfl, hcache⟩ := evictOnePage_eq_some hevict
      have hne : key ≠ victim.key := by
        rintro rfl
        rw [(find_of_victim hvictim).1] at hkey
        cases hkey
      rw [Option.getD_some, onCache, hcache]
      exact (find_erase_of_ne hne).trans hkey

theorem sound_missed (hsound : s.cache.Sound) :
    (s.onCache fun c => { c with missCount := c.missCount + 1 }).cache.Sound :=
  ⟨hsound.distinct, hsound.lruDistinct, hsound.listed, hsound.positive, hsound.room⟩

theorem find_change_ne_none {c : PageCache} {f : CachedPageFrame → CachedPageFrame}
    (hf : ∀ frame, (f frame).key = frame.key) (h : c.find key = some frame) :
    (c.change key f).find key ≠ none := by
  rw [find_change c key key hf, if_pos rfl, h]
  exact Option.some_ne_none _

theorem sound_fetchPage (hsound : s.cache.Sound) (key : CachedPageKey) (fd : Option Path) :
    (s.fetchPage key fd).2.cache.Sound := by
  rw [fetchPage]
  cases hfind : s.cache.find key with
  | some frame =>
    have hmoved := (hsound.change key (f := .pin) fun _ => rfl).splice
      (find_change_ne_none (fun _ => rfl) hfind)
    exact ⟨hmoved.distinct, hmoved.lruDistinct, hmoved.listed, hmoved.positive, hmoved.room⟩
  | none =>
    obtain ⟨hroom, hplace, habsent⟩ := sound_makeRoom (sound_missed hsound) fd
    dsimp only
    split
    · rename_i hmade
      split
      · exact hroom
      · exact hroom.emplace (habsent key hfind) (hplace hmade)
    · exact hroom

theorem sound_newPage (hsound : s.cache.Sound) (key : CachedPageKey) (page : Page)
    (fd : Option Path) : (s.newPage key page fd).2.cache.Sound := by
  rw [newPage]
  cases hfind : s.cache.find key with
  | some frame =>
    exact (hsound.change key (f := .renew page) fun _ => rfl).splice
      (find_change_ne_none (fun _ => rfl) hfind)
  | none =>
    obtain ⟨hroom, hplace, habsent⟩ := sound_makeRoom hsound fd
    dsimp only
    split
    · rename_i hmade
      exact hroom.emplace (habsent key hfind) (hplace hmade)
    · exact hroom

theorem sound_unpinPage (hsound : s.cache.Sound) (key : CachedPageKey) (isDirty : Bool) :
    (s.unpinPage key isDirty).2.cache.Sound := by
  rw [unpinPage]
  cases s.cache.find key with
  | none => exact hsound
  | some frame =>
    dsimp only
    split
    · exact hsound
    · exact hsound.change key fun _ => rfl

theorem sound_flushPage (hsound : s.cache.Sound) (key : CachedPageKey) (fd : Option Path) :
    (s.flushPage key fd).2.cache.Sound := by
  rw [flushPage]
  cases s.cache.find key with
  | none => exact hsound
  | some frame =>
    dsimp only
    split
    · exact hsound
    · cases hwrite : s.writeFrame frame fd with
      | none => exact hsound
      | some s' =>
        have hcleaned := hsound.change key (f := .clean) fun _ => rfl
        rw [← (writeFrame_eq_some hwrite).1] at hcleaned
        exact hcleaned

theorem sound_flushLoop (hsound : s.cache.Sound) (fd : Option Path) (keys : List CachedPageKey) :
    (flushLoop fd keys s).2.cache.Sound := by
  induction keys generalizing s with
  | nil => exact hsound
  | cons key keys ih => exact ih (sound_flushPage hsound key fd)

/-! ## Contents -/

/-- The cache and the files hold what was last stored, and all writes went to their own blocks. -/
structure Holds (s : SharedCache) (stored : CachedPageKey → Page)
    (unmarked : CachedPageKey → Bool) : Prop where
  page : ∀ key frame, s.cache.find key = some frame → frame.page = stored key
  clean : ∀ key frame, s.cache.find key = some frame → frame.isDirty = false →
    unmarked key = false → s.onDisk key = stored key
  absent : ∀ key, s.cache.find key = none → s.onDisk key = stored key
  pinned : ∀ key, unmarked key = true →
    ∃ frame, s.cache.find key = some frame ∧ 0 < frame.pinCount
  own : ∀ w ∈ s.writes, w.file = w.key.tableFile ∧ w.pageId = w.key.pageId

variable {stored : CachedPageKey → Page} {unmarked : CachedPageKey → Bool}

theorem own_append {key : CachedPageKey}
    (h : ∀ w ∈ s.writes, w.file = w.key.tableFile ∧ w.pageId = w.key.pageId) :
    ∀ w ∈ s.writes ++ [⟨key, key.tableFile, key.pageId⟩],
      w.file = w.key.tableFile ∧ w.pageId = w.key.pageId := by
  intro w hw
  rcases List.mem_append.mp hw with hw | hw
  · exact h w hw
  · cases List.mem_singleton.mp hw
    exact ⟨rfl, rfl⟩

/-- A frame that is written to its own file leaves the cache, or a clean one does. -/
theorem Holds.evict (h : s.Holds stored unmarked) (hevict : s.evictOnePage fd = some s')
    (hown : ∀ victim, s.cache.victim = some victim → victim.isDirty = true →
      fd.getD victim.key.tableFile = victim.key.tableFile) : s'.Holds stored unmarked := by
  obtain ⟨victim, written, hvictim, hwritten, rfl, hcache⟩ := evictOnePage_eq_some hevict
  obtain ⟨hfind, hunpinned⟩ := find_of_victim hvictim
  have hmarked : unmarked victim.key = false := by
    rw [Bool.eq_false_iff]
    intro hunmarked
    obtain ⟨frame, hframe, hpinned⟩ := h.pinned _ hunmarked
    rw [hfind] at hframe
    cases hframe
    omega
  -- the file holds the page that leaves
  have hdisk : (∀ key, written.onDisk key =
      if key = victim.key then stored victim.key else s.onDisk key) ∧
      ∀ w ∈ written.writes, w.file = w.key.tableFile ∧ w.pageId = w.key.pageId := by
    split at hwritten
    · rename_i hdirty
      have hfile := hown victim hvictim hdirty
      rw [← h.page _ _ hfind, (writeFrame_eq_some hwritten).2, hfile]
      exact ⟨onDisk_of_writeFrame hwritten hfile, own_append h.own⟩
    · rename_i hclean
      cases hwritten
      refine ⟨fun key => ?_, h.own⟩
      split
      · rename_i hkey
        rw [hkey]
        exact h.clean _ _ hfind (Bool.eq_false_iff.mpr hclean) hmarked
      · rfl
  have hother : ∀ key frame, (s.cache.erase victim.key).find key = some frame →
      key ≠ victim.key ∧ s.cache.find key = some frame := by
    intro key frame hkey
    have hne : key ≠ victim.key := by
      rintro rfl
      rw [find_erase_self] at hkey
      cases hkey
    exact ⟨hne, by rwa [find_erase_of_ne hne] at hkey⟩
  have hsame : (written.onCache (·.erase victim.key)).cache = s.cache.erase victim.key := by
    rw [onCache, hcache]
  refine ⟨fun key frame hkey => ?_, fun key frame hkey hclean hmark => ?_, fun key hkey => ?_,
    fun key hmark => ?_, hdisk.2⟩
  · rw [hsame] at hkey
    exact h.page key frame (hother key frame hkey).2
  · rw [hsame] at hkey
    obtain ⟨hne, hkey⟩ := hother key frame hkey
    exact (hdisk.1 key).trans ((if_neg hne).trans (h.clean key frame hkey hclean hmark))
  · refine (hdisk.1 key).trans ?_
    split
    · rename_i heq
      rw [heq]
    · rename_i hne
      rw [hsame, find_erase_of_ne hne] at hkey
      exact h.absent key hkey
  · have hne : key ≠ victim.key := by
      rintro rfl
      rw [hmarked] at hmark
      cases hmark
    rw [hsame, find_erase_of_ne hne]
    exact h.pinned key hmark

theorem Holds.makeRoom (h : s.Holds stored unmarked) (hsound : s.cache.Sound)
    (hown : s.cache.capacity ≤ s.cache.pages.length → ∀ victim, s.cache.victim = some victim →
      victim.isDirty = true → fd.getD victim.key.tableFile = victim.key.tableFile) :
    (s.makeRoom fd s.cache.pages.length).2.Holds stored unmarked := by
  rw [makeRoom_eq hsound]
  split
  · exact h
  · rename_i hfull
    cases hevict : s.evictOnePage fd with
    | none => exact h
    | some s' => exact h.evict hevict (hown (not_lt.mp hfull))

/-- A page comes into the cache. -/
theorem Holds.emplace {key : CachedPageKey} {page : Page} {isDirty : Bool}
    (h : s.Holds stored unmarked) (habsent : s.cache.find key = none)
    (hpage : isDirty = false → page = stored key) :
    (s.onCache (·.emplace ⟨key, page, isDirty, 1⟩)).Holds (Function.update stored key page)
      unmarked := by
  have hself : (s.cache.emplace ⟨key, page, isDirty, 1⟩).find key = some ⟨key, page, isDirty, 1⟩ :=
    find_emplace_self s.cache ⟨key, page, isDirty, 1⟩
  have hother : ∀ key', key' ≠ key →
      (s.cache.emplace ⟨key, page, isDirty, 1⟩).find key' = s.cache.find key' := fun key' hne =>
    find_emplace_of_ne hne
  refine ⟨fun key' frame hkey => ?_, fun key' frame hkey hclean hmark => ?_, fun key' hkey => ?_,
    fun key' hmark => ?_, h.own⟩
  · by_cases heq : key' = key
    · subst heq
      cases hself.symm.trans hkey
      rw [Function.update_self]
    · rw [Function.update_of_ne heq]
      exact h.page key' frame ((hother key' heq).symm.trans hkey)
  · by_cases heq : key' = key
    · subst heq
      cases hself.symm.trans hkey
      rw [Function.update_self, hpage hclean]
      exact h.absent key' habsent
    · rw [Function.update_of_ne heq]
      exact h.clean key' frame ((hother key' heq).symm.trans hkey) hclean hmark
  · have hne : key' ≠ key := by
      rintro rfl
      cases hself.symm.trans hkey
    rw [Function.update_of_ne hne]
    exact h.absent key' ((hother key' hne).symm.trans hkey)
  · have hne : key' ≠ key := by
      rintro rfl
      obtain ⟨frame, hframe, -⟩ := h.pinned _ hmark
      rw [habsent] at hframe
      cases hframe
    obtain ⟨frame, hframe, hpins⟩ := h.pinned key' hmark
    exact ⟨frame, (hother key' hne).trans hframe, hpins⟩

/-- A frame changes in its place: its page with what is stored, the rest as the callers say. -/
theorem Holds.change {key : CachedPageKey} {frame : CachedPageFrame}
    {f : CachedPageFrame → CachedPageFrame} {page : Page} {mark : Bool} {c : PageCache}
    (h : s.Holds stored unmarked) (hfind : s.cache.find key = some frame)
    (hc : ∀ key', c.find key' =
      if key' = key then (s.cache.find key').map f else s.cache.find key')
    (hpage : (f frame).page = page)
    (hclean : (f frame).isDirty = false → mark = false → s.onDisk key = page)
    (hpinned : mark = true → 0 < (f frame).pinCount) :
    ({ s with cache := c } : SharedCache).Holds (Function.update stored key page)
      (Function.update unmarked key mark) := by
  have hself : c.find key = some (f frame) := by
    rw [hc, if_pos rfl, hfind, Option.map_some]
  have hother : ∀ key', key' ≠ key → c.find key' = s.cache.find key' := fun key' hne => by
    rw [hc, if_neg hne]
  refine ⟨fun key' frame' hkey => ?_, fun key' frame' hkey hnot hmark => ?_, fun key' hkey => ?_,
    fun key' hmark => ?_, h.own⟩
  · by_cases heq : key' = key
    · subst heq
      cases hself.symm.trans hkey
      rw [Function.update_self, hpage]
    · rw [Function.update_of_ne heq]
      exact h.page key' frame' ((hother key' heq).symm.trans hkey)
  · by_cases heq : key' = key
    · subst heq
      cases hself.symm.trans hkey
      rw [Function.update_self] at hmark ⊢
      exact hclean hnot hmark
    · rw [Function.update_of_ne heq] at hmark ⊢
      exact h.clean key' frame' ((hother key' heq).symm.trans hkey) hnot hmark
  · have hne : key' ≠ key := by
      rintro rfl
      cases hself.symm.trans hkey
    rw [Function.update_of_ne hne]
    exact h.absent key' ((hother key' hne).symm.trans hkey)
  · by_cases heq : key' = key
    · subst heq
      rw [Function.update_self] at hmark
      exact ⟨f frame, hself, hpinned hmark⟩
    · rw [Function.update_of_ne heq] at hmark
      obtain ⟨frame', hframe', hpins⟩ := h.pinned key' hmark
      exact ⟨frame', (hother key' heq).trans hframe', hpins⟩

/-- A frame changes apart from its page. -/
theorem Holds.refresh {key : CachedPageKey} {frame : CachedPageFrame}
    {f : CachedPageFrame → CachedPageFrame} {c : PageCache} (h : s.Holds stored unmarked)
    (hfind : s.cache.find key = some frame)
    (hc : ∀ key', c.find key' =
      if key' = key then (s.cache.find key').map f else s.cache.find key')
    (hpage : (f frame).page = frame.page)
    (hclean : (f frame).isDirty = false → unmarked key = false → s.onDisk key = stored key)
    (hpinned : unmarked key = true → 0 < (f frame).pinCount) :
    ({ s with cache := c } : SharedCache).Holds stored unmarked := by
  have hchanged := h.change hfind hc (hpage.trans (h.page key frame hfind)) hclean hpinned
  rwa [Function.update_eq_self, Function.update_eq_self] at hchanged

theorem Holds.pinned_find {key : CachedPageKey} (h : s.Holds stored unmarked)
    (hfind : s.cache.find key = some frame) (hmark : unmarked key = true) : 0 < frame.pinCount := by
  obtain ⟨frame', hframe', hpins⟩ := h.pinned key hmark
  rw [hfind] at hframe'
  cases hframe'
  exact hpins

theorem Holds.not_unmarked {key : CachedPageKey} (h : s.Holds stored unmarked)
    (habsent : s.cache.find key = none) : unmarked key = false := by
  rw [Bool.eq_false_iff]
  intro hmark
  obtain ⟨frame, hframe, -⟩ := h.pinned key hmark
  rw [habsent] at hframe
  cases hframe

/-- A fetched page is the one last stored. -/
theorem Holds.fetchPage {key : CachedPageKey} (h : s.Holds stored unmarked)
    (hsound : s.cache.Sound) (hfile : fd.getD key.tableFile = key.tableFile)
    (hown : s.cache.find key = none → s.cache.capacity ≤ s.cache.pages.length →
      ∀ victim, s.cache.victim = some victim → victim.isDirty = true →
        fd.getD victim.key.tableFile = victim.key.tableFile) :
    (s.fetchPage key fd).2.Holds stored unmarked ∧
      ∀ page, (s.fetchPage key fd).1 = some page → page = stored key := by
  rw [SharedCache.fetchPage]
  cases hfind : s.cache.find key with
  | some frame =>
    have hpage := h.page key frame hfind
    refine ⟨h.refresh hfind (fun key' => find_change s.cache key key' fun _ => rfl) rfl
      (fun hclean => h.clean key frame hfind hclean) fun _ => Nat.succ_pos _, ?_⟩
    intro page hsome
    cases hsome
    exact hpage
  | none =>
    have hmissed : (s.onCache fun c => { c with missCount := c.missCount + 1 }).Holds stored
        unmarked := ⟨h.page, h.clean, h.absent, h.pinned, h.own⟩
    obtain ⟨hroom, hplace, habsent⟩ := sound_makeRoom (sound_missed hsound) fd
    have hmade := hmissed.makeRoom (sound_missed hsound) (hown hfind)
    dsimp only
    split
    · split
      · exact ⟨hmade, fun page hsome => absurd hsome.symm (Option.some_ne_none page)⟩
      · rename_i page hread
        -- the block of the file
        have hpage : page = stored key := by
          obtain ⟨blocks, hblocks, hblock⟩ := Option.bind_eq_some_iff.mp hread
          rw [hfile] at hblocks
          have hdisk := hmade.absent key (habsent key hfind)
          rw [onDisk] at hdisk
          erw [hblocks] at hdisk
          rw [Option.getD_some, List.getD_eq_getElem?_getD, hblock, Option.getD_some] at hdisk
          exact hdisk
        subst hpage
        have hloaded : (SharedCache.onCache _ (·.emplace ⟨key, stored key, false, 1⟩)).Holds
            (Function.update stored key (stored key)) unmarked :=
          hmade.emplace (habsent key hfind) fun _ => rfl
        rw [Function.update_eq_self] at hloaded
        refine ⟨hloaded, ?_⟩
        intro page' hsome
        cases hsome
        rfl
    · exact ⟨hmade, fun page hsome => absurd hsome.symm (Option.some_ne_none page)⟩

theorem Holds.newPage {key : CachedPageKey} {page : Page} (h : s.Holds stored unmarked)
    (hsound : s.cache.Sound)
    (hown : s.cache.find key = none → s.cache.capacity ≤ s.cache.pages.length →
      ∀ victim, s.cache.victim = some victim → victim.isDirty = true →
        fd.getD victim.key.tableFile = victim.key.tableFile) :
    if (s.newPage key page fd).1 then
      (s.newPage key page fd).2.Holds (Function.update stored key page)
        (Function.update unmarked key false)
    else (s.newPage key page fd).2.Holds stored unmarked := by
  cases hfind : s.cache.find key with
  | some frame =>
    have hresult : s.newPage key page fd =
        (true, s.onCache fun c => (c.change key (.renew page)).splice key) := by
      rw [SharedCache.newPage, hfind]
    rw [hresult, if_pos rfl]
    exact h.change hfind (fun key' => find_change s.cache key key' fun _ => rfl) rfl
      (fun hclean => by cases hclean) fun hmark => by cases hmark
  | none =>
    obtain ⟨hroom, hplace, habsent⟩ := sound_makeRoom hsound fd
    have hmade := h.makeRoom hsound (hown hfind)
    have hmark : Function.update unmarked key false = unmarked := by
      rw [← h.not_unmarked hfind, Function.update_eq_self]
    have hresult : s.newPage key page fd =
        if (SharedCache.makeRoom fd s.cache.pages.length s).1 then
          (true, (SharedCache.makeRoom fd s.cache.pages.length s).2.onCache
            (·.emplace ⟨key, page, true, 1⟩))
        else (false, (SharedCache.makeRoom fd s.cache.pages.length s).2) := by
      rw [SharedCache.newPage, hfind]
    split at hresult
    · rw [hresult, if_pos rfl, hmark]
      exact hmade.emplace (habsent key hfind) fun hclean => by cases hclean
    · rw [hresult, if_neg Bool.false_ne_true]
      exact hmade

theorem Holds.setPage {key : CachedPageKey} {page : Page} (h : s.Holds stored unmarked)
    (hfind : s.cache.find key = some frame) (hpinned : 0 < frame.pinCount) :
    (s.setPage key page).Holds (Function.update stored key page)
      (Function.update unmarked key true) :=
  h.change hfind (fun key' => find_change s.cache key key' fun _ => rfl) rfl
    (fun _ hmark => by cases hmark) fun _ => hpinned

theorem Holds.unpinPage {key : CachedPageKey} {isDirty : Bool} (h : s.Holds stored unmarked)
    (hlast : isDirty = false → unmarked key = true →
      ∀ frame, s.cache.find key = some frame → frame.pinCount ≠ 1) :
    (s.unpinPage key isDirty).2.Holds stored
      (if (s.unpinPage key isDirty).1 && isDirty then Function.update unmarked key false
      else unmarked) := by
  cases hfind : s.cache.find key with
  | none =>
    have hresult : s.unpinPage key isDirty = (false, s) := by rw [SharedCache.unpinPage, hfind]
    rw [hresult]
    exact h
  | some frame =>
    have hresult : s.unpinPage key isDirty =
        if frame.pinCount = 0 then (false, s)
        else (true, s.onCache (·.change key (.unpin isDirty))) := by
      rw [SharedCache.unpinPage, hfind]
    by_cases hzero : frame.pinCount = 0
    · rw [hresult, if_pos hzero]
      exact h
    · rw [hresult, if_neg hzero, Bool.true_and]
      cases isDirty with
      | true =>
        have hchanged : (s.onCache (·.change key (.unpin true))).Holds
            (Function.update stored key (stored key)) (Function.update unmarked key false) :=
          h.change hfind (fun key' => find_change s.cache key key' fun _ => rfl)
            (h.page key frame hfind) (fun hclean => by simp [CachedPageFrame.unpin] at hclean)
            fun hmark => by cases hmark
        rwa [Function.update_eq_self] at hchanged
      | false =>
        refine h.refresh hfind (fun key' => find_change s.cache key key' fun _ => rfl) rfl
          (fun hclean => ?_) fun hmark => ?_
        · rw [CachedPageFrame.unpin, Bool.or_false] at hclean
          exact h.clean key frame hfind hclean
        · have hone := hlast rfl hmark frame hfind
          rw [CachedPageFrame.unpin]
          dsimp only
          omega

theorem Holds.flushPage {key : CachedPageKey} (h : s.Holds stored unmarked)
    (hown : ∀ frame, s.cache.find key = some frame → frame.isDirty = true →
      fd.getD frame.key.tableFile = frame.key.tableFile) :
    (s.flushPage key fd).2.Holds stored unmarked := by
  rw [SharedCache.flushPage]
  cases hfind : s.cache.find key with
  | none => exact h
  | some frame =>
    dsimp only
    cases hdirty : frame.isDirty with
    | false => exact h
    | true =>
      rw [Bool.not_true, if_neg Bool.false_ne_true]
      cases hwrite : s.writeFrame frame fd with
      | none => exact h
      | some s' =>
        have hfile := hown frame hfind hdirty
        obtain ⟨hcache, hwrites⟩ := writeFrame_eq_some hwrite
        have hdisk := onDisk_of_writeFrame hwrite hfile
        have hkey := (mem_of_find hfind).2
        rw [hfile] at hwrites
        rw [hkey, h.page key frame hfind] at hdisk
        have hsame : ∀ key', s.onDisk key' = stored key' → s'.onDisk key' = stored key' := by
          intro key' hold
          rw [hdisk]
          split
          · rename_i heq
            rw [heq]
          · exact hold
        have hwritten : s'.Holds stored unmarked := by
          refine ⟨?_, ?_, ?_, ?_, hwrites ▸ own_append h.own⟩
          · rw [hcache]
            exact h.page
          · rw [hcache]
            exact fun key' frame' hf hclean hmark => hsame key' (h.clean key' frame' hf hclean hmark)
          · rw [hcache]
            exact fun key' hf => hsame key' (h.absent key' hf)
          · rw [hcache]
            exact h.pinned
        refine hwritten.refresh (f := .clean) (by rw [hcache]; exact hfind)
          (fun key' => find_change s'.cache key key' fun _ => rfl) rfl (fun _ _ => ?_) ?_
        · rw [hdisk, if_pos rfl]
        · intro hmark
          have hpins := h.pinned_find hfind hmark
          exact hpins

/-- Flushing a page leaves no frame dirty that was not. -/
theorem dirty_of_flushPage {key key' : CachedPageKey} {frame : CachedPageFrame}
    (hfind : (s.flushPage key fd).2.cache.find key' = some frame) (hdirty : frame.isDirty = true) :
    s.cache.find key' = some frame := by
  rw [SharedCache.flushPage] at hfind
  cases hkey : s.cache.find key with
  | none => rwa [hkey] at hfind
  | some flushed =>
    rw [hkey] at hfind
    dsimp only at hfind
    split at hfind
    · exact hfind
    · cases hwrite : s.writeFrame flushed fd with
      | none => rwa [hwrite] at hfind
      | some s' =>
        rw [hwrite] at hfind
        dsimp only [onCache] at hfind
        rw [find_change s'.cache key key' (f := .clean) fun _ => rfl, (writeFrame_eq_some hwrite).1]
          at hfind
        split at hfind
        · obtain ⟨old, -, rfl⟩ := Option.map_eq_some_iff.mp hfind
          cases hdirty
        · exact hfind

theorem Holds.flushLoop {keys : List CachedPageKey} (h : s.Holds stored unmarked)
    (hown : ∀ key frame, s.cache.find key = some frame → frame.isDirty = true →
      fd.getD frame.key.tableFile = frame.key.tableFile) :
    (flushLoop fd keys s).2.Holds stored unmarked := by
  induction keys generalizing s with
  | nil => exact h
  | cons key keys ih =>
    exact ih (h.flushPage (hown key)) fun key' frame hfind hdirty =>
      hown key' frame (dirty_of_flushPage hfind hdirty) hdirty

/-! ## What was written stays written -/

theorem writes_evictOnePage (h : s.evictOnePage fd = some s') : s.writes ⊆ s'.writes := by
  obtain ⟨victim, written, -, hwritten, rfl, -⟩ := evictOnePage_eq_some h
  split at hwritten
  · intro w hw
    rw [onCache, (writeFrame_eq_some hwritten).2]
    exact List.mem_append_left _ hw
  · cases hwritten
    exact fun w hw => hw

theorem writes_makeRoom (fd : Option Path) (rounds : Nat) (s : SharedCache) :
    s.writes ⊆ (s.makeRoom fd rounds).2.writes := by
  induction rounds generalizing s with
  | zero => exact fun w hw => hw
  | succ rounds ih =>
    rw [makeRoom]
    split
    · exact fun w hw => hw
    · cases hevict : s.evictOnePage fd with
      | none => exact fun w hw => hw
      | some s' => exact fun w hw => ih s' (writes_evictOnePage hevict hw)

theorem writes_fetchPage (s : SharedCache) (key : CachedPageKey) (fd : Option Path) :
    s.writes ⊆ (s.fetchPage key fd).2.writes := by
  rw [fetchPage]
  cases s.cache.find key with
  | some frame => exact fun w hw => hw
  | none =>
    have hroom := writes_makeRoom fd s.cache.pages.length
      (s.onCache fun c => { c with missCount := c.missCount + 1 })
    dsimp only
    split
    · split
      · exact hroom
      · exact hroom
    · exact hroom

theorem writes_newPage (s : SharedCache) (key : CachedPageKey) (page : Page) (fd : Option Path) :
    s.writes ⊆ (s.newPage key page fd).2.writes := by
  rw [newPage]
  cases s.cache.find key with
  | some frame => exact fun w hw => hw
  | none =>
    have hroom := writes_makeRoom fd s.cache.pages.length s
    dsimp only
    split
    · exact hroom
    · exact hroom

theorem writes_unpinPage (s : SharedCache) (key : CachedPageKey) (isDirty : Bool) :
    s.writes ⊆ (s.unpinPage key isDirty).2.writes := by
  rw [unpinPage]
  cases s.cache.find key with
  | none => exact fun w hw => hw
  | some frame =>
    dsimp only
    split
    · exact fun w hw => hw
    · exact fun w hw => hw

theorem writes_flushPage (s : SharedCache) (key : CachedPageKey) (fd : Option Path) :
    s.writes ⊆ (s.flushPage key fd).2.writes := by
  rw [flushPage]
  cases s.cache.find key with
  | none => exact fun w hw => hw
  | some frame =>
    dsimp only
    split
    · exact fun w hw => hw
    · cases hwrite : s.writeFrame frame fd with
      | none => exact fun w hw => hw
      | some s' =>
        intro w hw
        dsimp only [onCache]
        rw [(writeFrame_eq_some hwrite).2]
        exact List.mem_append_left _ hw

theorem writes_flushLoop (fd : Option Path) (keys : List CachedPageKey) (s : SharedCache) :
    s.writes ⊆ (flushLoop fd keys s).2.writes := by
  induction keys generalizing s with
  | nil => exact fun w hw => hw
  | cons key keys ih => exact fun w hw => ih _ (writes_flushPage s key fd hw)

/-! ## A page in a foreign file -/

/-- A write that did not go to the file of its frame. -/
def Foreign (s : SharedCache) : Prop := ∃ w ∈ s.writes, w.file ≠ w.key.tableFile

theorem Foreign.mono (h : s.Foreign) (hsub : s.writes ⊆ s'.writes) : s'.Foreign := by
  obtain ⟨w, hw, hne⟩ := h
  exact ⟨w, hsub hw, hne⟩

theorem foreign_of_writeFrame {file : Path} (h : s.writeFrame frame (some file) = some s')
    (hne : frame.key.tableFile ≠ file) : s'.Foreign := by
  refine ⟨⟨frame.key, file, frame.key.pageId⟩, ?_, hne.symm⟩
  rw [(writeFrame_eq_some h).2]
  exact List.mem_append_right _ (List.mem_singleton_self _)

/-- A dirty page of another file leaves a full cache through the descriptor. -/
theorem foreign_makeRoom {file : Path} {victim : CachedPageFrame}
    (hopen : (s.files file).isSome = true) (hfull : s.cache.capacity ≤ s.cache.pages.length)
    (hvictim : s.cache.victim = some victim) (hdirty : victim.isDirty = true)
    (hne : victim.key.tableFile ≠ file) :
    (s.makeRoom (some file) s.cache.pages.length).2.Foreign := by
  have hmem := (mem_of_find (find_of_victim hvictim).1).1
  obtain ⟨rounds, hrounds⟩ : ∃ rounds, s.cache.pages.length = rounds + 1 :=
    ⟨s.cache.pages.length - 1, by have := List.length_pos_of_mem hmem; omega⟩
  obtain ⟨written, hwritten⟩ := @writeFrame_isSome s victim (some file) hopen
  have hevict : s.evictOnePage (some file) = some (written.onCache (·.erase victim.key)) := by
    rw [evictOnePage, hvictim, Option.bind_some, if_pos hdirty, hwritten, Option.map_some]
  have hforeign : (written.onCache (·.erase victim.key)).Foreign :=
    (foreign_of_writeFrame hwritten hne).mono fun w hw => hw
  rw [hrounds, makeRoom, if_neg (by omega), hevict]
  exact hforeign.mono (writes_makeRoom _ _ _)

/-- A flush of all pages writes the dirty pages of other files as well. -/
theorem foreign_flushLoop {file : Path} {keys : List CachedPageKey}
    (hopen : (s.files file).isSome = true) (hmem : frame.key ∈ keys)
    (hfind : s.cache.find frame.key = some frame) (hdirty : frame.isDirty = true)
    (hne : frame.key.tableFile ≠ file) : (flushLoop (some file) keys s).2.Foreign := by
  induction keys generalizing s with
  | nil => cases hmem
  | cons key keys ih =>
    rw [flushLoop]
    by_cases hkey : key = frame.key
    · obtain ⟨written, hwritten⟩ := @writeFrame_isSome s frame (some file) hopen
      have hforeign : (s.flushPage key (some file)).2.Foreign := by
        rw [flushPage, hkey, hfind]
        dsimp only
        rw [hdirty, Bool.not_true, if_neg Bool.false_ne_true, hwritten]
        exact (foreign_of_writeFrame hwritten hne).mono fun w hw => hw
      exact hforeign.mono (writes_flushLoop _ _ _)
    · -- the page of another key is flushed first
      have hrest := (List.mem_cons.mp hmem).resolve_left (Ne.symm hkey)
      have hstays : ((s.flushPage key (some file)).2.files file).isSome = true ∧
          (s.flushPage key (some file)).2.cache.find frame.key = some frame := by
        rw [flushPage]
        cases s.cache.find key with
        | none => exact ⟨hopen, hfind⟩
        | some other =>
          dsimp only
          split
          · exact ⟨hopen, hfind⟩
          · cases hwrite : s.writeFrame other (some file) with
            | none => exact ⟨hopen, hfind⟩
            | some s' =>
              dsimp only [onCache]
              rw [find_change s'.cache key frame.key (f := .clean) fun _ => rfl,
                if_neg (Ne.symm hkey), (writeFrame_eq_some hwrite).1]
              refine ⟨?_, hfind⟩
              obtain ⟨blocks, -, rfl⟩ := Option.map_eq_some_iff.mp hwrite
              dsimp only [Option.getD_some]
              rw [Function.update_self]
              rfl
      exact ih hstays.1 hrest hstays.2

end SharedCache

/-! ## Runs -/

namespace CacheRun

variable {order : HashOrder} {r : CacheRun} {call : CacheCall}

/-- The bookkeeping of the cache, what it holds, and what was fetched. -/
structure Kept (r : CacheRun) : Prop where
  holds : r.state.Holds r.stored r.unmarked
  fetched : ∀ f ∈ r.fetches, f.1 = f.2

theorem sound_step (h : r.state.cache.Sound) (call : CacheCall) :
    (r.step order call).state.cache.Sound := by
  cases call with
  | fetchPage key fd => exact SharedCache.sound_fetchPage h key fd
  | newPage key page fd =>
    have hsound := SharedCache.sound_newPage h key page fd
    rw [step]
    split
    · exact hsound
    · exact hsound
  | setPage key page => exact h.change key fun _ => rfl
  | unpinPage key isDirty => exact SharedCache.sound_unpinPage h key isDirty
  | flushPage key fd => exact SharedCache.sound_flushPage h key fd
  | flushAllPages fd => exact SharedCache.sound_flushLoop h fd _

theorem writes_step (order : HashOrder) (r : CacheRun) (call : CacheCall) :
    r.state.writes ⊆ (r.step order call).state.writes := by
  cases call with
  | fetchPage key fd => exact SharedCache.writes_fetchPage r.state key fd
  | newPage key page fd =>
    have hsub := SharedCache.writes_newPage r.state key page fd
    rw [step]
    split
    · exact hsub
    · exact hsub
  | setPage key page => exact fun w hw => hw
  | unpinPage key isDirty => exact SharedCache.writes_unpinPage r.state key isDirty
  | flushPage key fd => exact SharedCache.writes_flushPage r.state key fd
  | flushAllPages fd => exact SharedCache.writes_flushLoop fd _ r.state

theorem writes_run (order : HashOrder) (r : CacheRun) (calls : List CacheCall) :
    r.state.writes ⊆ (r.run order calls).state.writes := by
  induction calls generalizing r with
  | nil => exact fun w hw => hw
  | cons call calls ih => exact fun w hw => ih _ (writes_step order r call hw)

/-- A call that writes no page through a foreign descriptor keeps what is stored. -/
theorem kept_step (h : r.Kept) (hsound : r.state.cache.Sound) (hproper : r.Proper call)
    (hown : r.OwnFile call) : (r.step order call).Kept := by
  -- the descriptor of the call, or the file of the frame that is evicted
  have hevict : ∀ {key : CachedPageKey} {fd : Option Path}, r.OwnFile (.fetchPage key fd) →
      r.state.cache.find key = none → r.state.cache.capacity ≤ r.state.cache.pages.length →
      ∀ victim, r.state.cache.victim = some victim → victim.isDirty = true →
        fd.getD victim.key.tableFile = victim.key.tableFile := by
    intro key fd hown hfind hfull victim hvictim hdirty
    cases fd with
    | none => rfl
    | some file => exact (hown file rfl hfind hfull victim hvictim hdirty).symm
  cases call with
  | fetchPage key fd =>
    have hfile : fd.getD key.tableFile = key.tableFile := by
      cases fd with
      | none => rfl
      | some file => exact (hproper file rfl).1
    obtain ⟨hholds, hpage⟩ := h.holds.fetchPage hsound hfile (hevict hown)
    refine ⟨hholds, fun f hf => ?_⟩
    rcases List.mem_append.mp hf with hf | hf
    · exact h.fetched f hf
    · obtain ⟨page, hfetched, rfl⟩ := Option.map_eq_some_iff.mp (Option.mem_toList.mp hf)
      exact hpage page hfetched
  | newPage key page fd =>
    have hnew := @SharedCache.Holds.newPage _ fd _ _ key page h.holds hsound (hevict hown)
    rw [step]
    split at hnew
    · rename_i hdone
      rw [if_pos hdone]
      exact ⟨hnew, h.fetched⟩
    · rename_i hfailed
      rw [if_neg hfailed]
      exact ⟨hnew, h.fetched⟩
  | setPage key page =>
    obtain ⟨frame, hfind, hpinned⟩ := hproper
    exact ⟨h.holds.setPage hfind hpinned, h.fetched⟩
  | unpinPage key isDirty => exact ⟨h.holds.unpinPage hproper, h.fetched⟩
  | flushPage key fd =>
    refine ⟨h.holds.flushPage fun frame hfind _ => ?_, h.fetched⟩
    rw [(mem_of_find hfind).2]
    cases fd with
    | none => rfl
    | some file => exact (hproper file rfl).1
  | flushAllPages fd =>
    refine ⟨h.holds.flushLoop fun key frame hfind hdirty => ?_, h.fetched⟩
    cases fd with
    | none => rfl
    | some file => exact (hown file rfl frame (mem_of_find hfind).1 hdirty).symm

/-- Any other call does. -/
theorem foreign_step (hsound : r.state.cache.Sound) (hproper : r.Proper call)
    (hnot : ¬ r.OwnFile call) : (r.step order call).state.Foreign := by
  cases call with
  | fetchPage key fd =>
    simp only [OwnFile, not_forall] at hnot
    obtain ⟨file, rfl, hfind, hfull, victim, hvictim, hdirty, hne⟩ := hnot
    have hroom : ((r.state.onCache fun c => { c with missCount := c.missCount + 1 }).makeRoom
        (some file) r.state.cache.pages.length).2.Foreign :=
      SharedCache.foreign_makeRoom
        (s := r.state.onCache fun c => { c with missCount := c.missCount + 1 })
        (hproper file rfl).2 hfull hvictim hdirty hne
    rw [step, SharedCache.fetchPage, hfind]
    dsimp only
    split
    · split
      · exact hroom
      · exact hroom.mono fun w hw => hw
    · exact hroom
  | newPage key page fd =>
    simp only [OwnFile, not_forall] at hnot
    obtain ⟨file, rfl, hfind, hfull, victim, hvictim, hdirty, hne⟩ := hnot
    have hroom := SharedCache.foreign_makeRoom (hproper file rfl).2 hfull hvictim hdirty hne
    have hpage : (r.state.newPage key page (some file)).2.Foreign := by
      rw [SharedCache.newPage, hfind]
      dsimp only
      split
      · exact hroom.mono fun w hw => hw
      · exact hroom
    rw [step]
    split
    · exact hpage
    · exact hpage
  | flushAllPages fd =>
    simp only [OwnFile, not_forall] at hnot
    obtain ⟨file, rfl, frame, hmem, hdirty, hne⟩ := hnot
    exact SharedCache.foreign_flushLoop (hproper file rfl)
      ((order.perm _).mem_iff.mpr (List.mem_map_of_mem hmem)) (hsound.find_of_mem hmem) hdirty hne
  | setPage key page => exact absurd trivial hnot
  | unpinPage key isDirty => exact absurd trivial hnot
  | flushPage key fd => exact absurd trivial hnot

theorem transparent_run_iff {calls : List CacheCall} (h : r.Kept) (hsound : r.state.cache.Sound)
    (hproper : r.All order Proper calls) :
    (r.run order calls).Transparent ↔ r.All order OwnFile calls := by
  induction calls generalizing r with
  | nil => exact iff_of_true ⟨h.holds.own, h.fetched⟩ trivial
  | cons call calls ih =>
    obtain ⟨hcall, hcalls⟩ := hproper
    rw [run, All]
    by_cases hown : r.OwnFile call
    · rw [ih (kept_step h hsound hcall hown) (sound_step hsound call) hcalls]
      exact (and_iff_right hown).symm
    · refine iff_of_false (fun htransparent => ?_) fun hall => hown hall.1
      obtain ⟨w, hw, hne⟩ := (foreign_step hsound hcall hown).mono (writes_run order _ calls)
      exact hne (htransparent.1 w hw).1

theorem sound_start (capacity : Nat) (files : Path → Option (List Page)) :
    (start capacity files).state.cache.Sound := by
  by_cases hzero : capacity = 0
  · have hone : empty capacity = empty 1 := by rw [hzero, empty, empty]; rfl
    rw [start, hone]
    exact sound_empty Nat.one_pos
  · exact sound_empty (Nat.pos_of_ne_zero hzero)

theorem kept_start (capacity : Nat) (files : Path → Option (List Page)) :
    (start capacity files).Kept := by
  refine ⟨⟨?_, ?_, fun key _ => rfl, ?_, fun w hw => absurd hw List.not_mem_nil⟩,
    fun f hf => absurd hf List.not_mem_nil⟩
  · intro key frame h
    cases h
  · intro key frame h
    cases h
  · intro key h
    cases h

/-- A cache over any files is transparent exactly if no call writes a dirty page of another file
through its descriptor. -/
theorem transparent_iff {capacity : Nat} {files : Path → Option (List Page)}
    {calls : List CacheCall} (hproper : (start capacity files).All order Proper calls) :
    ((start capacity files).run order calls).Transparent ↔
      (start capacity files).All order OwnFile calls :=
  transparent_run_iff (kept_start capacity files) (sound_start capacity files) hproper

/-! ## Two files -/

/-- The tables `a` and `b`, of one page each. -/
def twoFiles (file : Path) : Option (List Page) :=
  if file = [[97]] ∨ file = [[98]] then some [Page.zero] else none

/-- A walk in the order in which the frames came. -/
def insertionOrder : HashOrder := ⟨id, fun keys => .refl keys⟩

/-- The page of `a` is changed, and then the page of `b` is fetched with a descriptor. -/
def changeThenFetch (flush : List CacheCall) : List CacheCall :=
  [.fetchPage ⟨[[97]], 0⟩ (some [[97]]), .setPage ⟨[[97]], 0⟩ (Page.zero.writeUint 0 2 1),
    .unpinPage ⟨[[97]], 0⟩ true] ++ flush ++ [.fetchPage ⟨[[98]], 0⟩ (some [[98]])]

/-- A fetch with a descriptor of the file it names. -/
theorem proper_fetchPage {r : CacheRun} {key : CachedPageKey}
    (h : (r.state.files key.tableFile).isSome = true) :
    r.Proper (.fetchPage key (some key.tableFile)) := by
  intro file hfile
  cases hfile
  exact ⟨rfl, h⟩

/-- A page that was flushed leaves the cache without a write. -/
theorem transparent_flushed : ((start 1 twoFiles).run insertionOrder
    (changeThenFetch [.flushPage ⟨[[97]], 0⟩ none])).Transparent := by
  have hproper : (start 1 twoFiles).All insertionOrder Proper
      (changeThenFetch [.flushPage ⟨[[97]], 0⟩ none]) := by
    unfold changeThenFetch
    refine ⟨@proper_fetchPage (start 1 twoFiles) ⟨[[97]], 0⟩ rfl, ⟨_, rfl, by decide⟩, ?_, ?_,
      @proper_fetchPage _ ⟨[[98]], 0⟩ (by decide), trivial⟩
    · intro h
      cases h
    · intro file h
      cases h
  have hown : (start 1 twoFiles).All insertionOrder OwnFile
      (changeThenFetch [.flushPage ⟨[[97]], 0⟩ none]) := by
    unfold changeThenFetch
    refine ⟨?_, trivial, trivial, trivial, ?_, trivial⟩
    · intro file _ _ hfull
      exact absurd hfull (by decide)
    · intro file _ _ _ victim hvictim hdirty
      cases hvictim
      cases hdirty
  exact (transparent_iff hproper).mpr hown

/-- The page of `a` is written to `b`, from where it is then read. -/
theorem page_written_to_foreign_file :
    ¬ ∀ (order : HashOrder) (capacity : Nat) (files : Path → Option (List Page))
      (calls : List CacheCall), (start capacity files).All order Proper calls →
        ((start capacity files).run order calls).Transparent := by
  intro h
  have hproper : (start 1 twoFiles).All insertionOrder Proper (changeThenFetch []) := by
    unfold changeThenFetch
    refine ⟨@proper_fetchPage (start 1 twoFiles) ⟨[[97]], 0⟩ rfl, ⟨_, rfl, by decide⟩, ?_,
      @proper_fetchPage _ ⟨[[98]], 0⟩ (by decide), trivial⟩
    intro h
    cases h
  have hwrite : ⟨⟨[[97]], 0⟩, [[98]], 0⟩ ∈
      ((start 1 twoFiles).run insertionOrder (changeThenFetch [])).state.writes := by
    decide
  exact absurd ((h insertionOrder 1 twoFiles _ hproper).1 _ hwrite).1 (by decide)

end CacheRun

end ScratchDb
