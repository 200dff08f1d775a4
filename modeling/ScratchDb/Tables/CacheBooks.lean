import ScratchDb.Storage.LinkedCache
import ScratchDb.Tables.CacheState

/-!
# The books of the page cache

Whatever the system answers, `lru_` and `pages_` agree after every call, and a
frame leaves the cache only when it is the least recently used one that is not
pinned, after it was written if it was dirty.
-/

namespace ScratchDb

namespace LinkedCache

variable {c : LinkedCache} {key : CachedPageKey} {frame g : LinkedFrame}

theorem mem_of_find (h : c.find key = some frame) : frame ∈ c.pages ∧ frame.key = key :=
  ⟨List.mem_of_find?_eq_some h, by simpa using List.find?_some h⟩

theorem find_eq_none (h : c.find key = none) : key ∉ c.pages.map (·.key) := by
  intro hmem
  obtain ⟨frame, hframe, rfl⟩ := List.mem_map.mp hmem
  have hnot := List.find?_eq_none.mp h frame hframe
  exact absurd (decide_eq_true rfl) hnot

theorem Kept.distinct (h : c.Kept) : (c.pages.map (·.key)).Nodup := h.listed.nodup_iff.mp h.once

theorem Kept.find_of_mem (h : c.Kept) (hframe : frame ∈ c.pages) : c.find frame.key = some frame := by
  cases hfind : c.find frame.key with
  | none => exact absurd (List.mem_map_of_mem hframe) (find_eq_none hfind)
  | some g =>
    obtain ⟨hg, hkey⟩ := mem_of_find hfind
    rw [List.inj_on_of_nodup_map h.distinct hg hframe hkey]

/-! ## The changes of the members -/

theorem keys_change {f : LinkedFrame → LinkedFrame} (hf : ∀ g, (f g).key = g.key) :
    (c.change key f).pages.map (·.key) = c.pages.map (·.key) := by
  rw [change, List.map_map]
  refine List.map_congr_left fun g _ => ?_
  rw [Function.comp_apply]
  split
  · exact hf g
  · rfl

theorem Kept.change {f : LinkedFrame → LinkedFrame} (h : c.Kept)
    (hf : ∀ g, (f g).key = g.key ∧ (f g).lruPosition = g.lruPosition) : (c.change key f).Kept := by
  have hkeys : (c.change key f).pages.map (·.key) = c.pages.map (·.key) :=
    keys_change fun g => (hf g).1
  refine ⟨by rw [hkeys]; exact h.listed, h.once, fun g hg => ?_, ?_⟩
  · obtain ⟨old, hold, rfl⟩ := List.mem_map.mp hg
    have hposition := h.positions old hold
    split
    · rw [(hf old).1, (hf old).2]
      exact hposition
    · exact hposition
  · exact (List.length_map _).trans_le h.room

/-- The position of a frame stays valid when its node is spliced to the front. -/
theorem Kept.touch (h : c.Kept) (hframe : frame ∈ c.pages) : (c.touch frame).Kept := by
  have hposition := h.positions frame hframe
  have hvalues : (c.touch frame).lru.values = frame.key :: c.lru.values.erase frame.key :=
    LinkedList.values_splice hposition h.once
  have hlisted : frame.key ∈ c.lru.values := LinkedList.mem_values_iff.mpr ⟨_, hposition⟩
  have hperm := (List.perm_cons_erase hlisted).symm
  have hkeys : (c.touch frame).pages.map (·.key) = c.pages.map (·.key) :=
    keys_change fun _ => rfl
  refine ⟨?_, ?_, fun g hg => ?_, (List.length_map _).trans_le h.room⟩
  · rw [hvalues, hkeys]
    exact hperm.trans h.listed
  · rw [hvalues]
    exact hperm.nodup_iff.mpr h.once
  · obtain ⟨old, hold, rfl⟩ := List.mem_map.mp hg
    split
    · rename_i hkey
      have hfront : (c.lru.splice frame.lruPosition).front = frame.lruPosition :=
        LinkedList.front_splice hposition
      dsimp only [LinkedFrame.moved]
      rw [hfront, hkey]
      exact LinkedList.get?_splice hposition
    · exact LinkedList.get?_splice (h.positions old hold)

theorem Kept.emplace (h : c.Kept) {frame : CachedPageFrame} (hfind : c.find frame.key = none)
    (hroom : c.pages.length < c.capacity) : (c.emplace frame).Kept := by
  have hpages : (c.emplace frame).pages =
      ⟨frame, (c.lru.pushFront frame.key).front⟩ :: c.pages := by
    rw [LinkedCache.emplace, hfind]
    rfl
  have hnew : frame.key ∉ c.lru.values := fun hmem =>
    find_eq_none hfind (h.listed.mem_iff.mp hmem)
  refine ⟨?_, List.nodup_cons.mpr ⟨hnew, h.once⟩, fun g hg => ?_, ?_⟩
  · rw [hpages, List.map_cons]
    exact h.listed.cons _
  · rw [hpages] at hg
    rcases List.mem_cons.mp hg with rfl | hg
    · exact LinkedList.get?_pushFront_front
    · exact LinkedList.get?_pushFront (h.positions g hg)
  · rw [hpages, List.length_cons]
    exact hroom

theorem keys_erase (h : c.Kept) (position : Nat) (key : CachedPageKey) :
    (c.erase position key).pages.map (·.key) = (c.pages.map (·.key)).erase key := by
  rw [h.distinct.erase_eq_filter, List.filter_map]
  refine congrArg (List.map _) (List.filter_congr fun g _ => ?_)
  by_cases hkey : g.key = key <;> simp [hkey]

theorem Kept.values_erase {position : Nat} (h : c.Kept) (hposition : c.lru.get? position = some key) :
    (c.erase position key).lru.values = c.lru.values.erase key :=
  LinkedList.values_erase hposition h.once

theorem Kept.erase {position : Nat} (h : c.Kept) (hposition : c.lru.get? position = some key) :
    (c.erase position key).Kept := by
  have hvalues := h.values_erase hposition
  refine ⟨?_, ?_, fun g hg => ?_, (List.length_filter_le _ _).trans h.room⟩
  · rw [hvalues, keys_erase h]
    exact h.listed.erase key
  · rw [hvalues]
    exact h.once.erase key
  · obtain ⟨hold, hne⟩ := List.mem_filter.mp hg
    have hown := h.positions g hold
    refine LinkedList.get?_erase_of_ne hown fun heq => of_decide_eq_true hne ?_
    rw [heq, hposition] at hown
    exact (Option.some.inj hown).symm

theorem Kept.clear (c : LinkedCache) : c.clear.Kept :=
  ⟨.nil, List.nodup_nil, fun _ h => absurd h List.not_mem_nil, Nat.zero_le _⟩

theorem length_erase_lt {position : Nat} (h : frame ∈ c.pages) :
    (c.erase position frame.key).pages.length < c.pages.length :=
  List.length_filter_lt_length_iff_exists.mpr ⟨frame, h, by simp⟩

/-! ## The keys alone -/

/-- The cache without the positions of its frames. -/
def forget (c : LinkedCache) : PageCache :=
  ⟨c.capacity, c.pages.map (·.toCachedPageFrame), c.lru.values, c.hitCount, c.missCount⟩

theorem keys_forget (c : LinkedCache) : c.forget.pages.map (·.key) = c.pages.map (·.key) := by
  rw [forget, List.map_map]
  rfl

theorem find_forget (c : LinkedCache) (key : CachedPageKey) :
    c.forget.find key = (c.find key).map (·.toCachedPageFrame) :=
  List.find?_map ..

theorem Kept.sound_forget (h : c.Kept) (hpositive : 0 < c.capacity) : c.forget.Sound where
  distinct := by
    rw [keys_forget]
    exact h.distinct
  lruDistinct := h.once
  listed key := by
    rw [keys_forget]
    exact h.listed.mem_iff
  positive := hpositive
  room := (List.length_map _).trans_le h.room

theorem Kept.forget_touch (h : c.Kept) (hframe : frame ∈ c.pages) :
    (c.touch frame).forget = c.forget.splice frame.key := by
  have hvalues : (c.touch frame).lru.values = frame.key :: c.lru.values.erase frame.key :=
    LinkedList.values_splice (h.positions frame hframe) h.once
  have hpages : (c.touch frame).pages.map (·.toCachedPageFrame) =
      c.pages.map (·.toCachedPageFrame) := by
    refine (List.map_map ..).trans (List.map_congr_left fun g _ => ?_)
    rw [Function.comp_apply]
    split
    · rfl
    · rfl
  rw [forget, hvalues, hpages]
  rfl

theorem forget_emplace {new : CachedPageFrame} (h : c.find new.key = none) :
    (c.emplace new).forget = c.forget.emplace new := by
  rw [LinkedCache.emplace, h]
  rfl

theorem Kept.forget_erase {position : Nat} (h : c.Kept)
    (hposition : c.lru.get? position = some key) :
    (c.erase position key).forget = c.forget.erase key := by
  have hback : (c.lru.values.reverse.erase key).reverse = c.lru.values.erase key := by
    rw [(List.nodup_reverse.mpr h.once).erase_eq_filter, h.once.erase_eq_filter,
      ← List.filter_reverse, List.reverse_reverse]
  have hpages : (c.erase position key).pages.map (·.toCachedPageFrame) =
      (c.pages.map (·.toCachedPageFrame)).filter fun frame => decide (frame.key ≠ key) := by
    rw [List.filter_map]
    rfl
  rw [forget, h.values_erase hposition, ← hback, hpages]
  rfl

end LinkedCache

namespace BookedCache

variable {σ : Type} {sys : CacheSystem σ} {s t u : BookedCache σ} {frame : LinkedFrame}
  {key : CachedPageKey} {fd : Option Int} {wal : Bool}

/-! ## Writes and reads -/

theorem descriptor_eq (sys : CacheSystem σ) (s : BookedCache σ) (file : Path) (fd : Option Int) :
    ∃ system, (s.descriptor sys file fd).2 = { s with system := system } := by
  cases fd with
  | none => exact ⟨_, rfl⟩
  | some fd => exact ⟨s.system, rfl⟩

theorem release_eq (sys : CacheSystem σ) (s : BookedCache σ) (opened : Int) (fd : Option Int) :
    ∃ system, s.release sys opened fd = { s with system := system } := by
  cases fd with
  | none => exact ⟨_, rfl⟩
  | some fd => exact ⟨s.system, rfl⟩

/-- A frame that was written is among the written ones. -/
theorem writeFrame_eq (sys : CacheSystem σ) (s : BookedCache σ) (frame : CachedPageFrame)
    (fd : Option Int) (wal : Bool) :
    ∃ ok system, s.writeFrame sys frame fd wal =
      (ok, { s with system := system, written := if ok then s.written ++ [frame] else s.written }) := by
  unfold writeFrame
  generalize (if wal then sys.flushThrough frame.page.pageLsn s.system else (true, s.system)) = flushed
  dsimp only
  split
  · exact ⟨false, flushed.2, rfl⟩
  · obtain ⟨system, hopened⟩ :=
      descriptor_eq sys { s with system := flushed.2 } frame.key.tableFile fd
    split
    · exact ⟨false, system, by rw [hopened]; rfl⟩
    · rw [hopened]
      obtain ⟨system', hreleased⟩ := release_eq sys _ _ fd
      exact ⟨_, system', by rw [hreleased]⟩

theorem readPageFromDisk_eq (sys : CacheSystem σ) (s : BookedCache σ) (key : CachedPageKey)
    (fd : Option Int) :
    ∃ page system, s.readPageFromDisk sys key fd = (page, { s with system := system }) := by
  unfold readPageFromDisk
  obtain ⟨system, hopened⟩ := descriptor_eq sys s key.tableFile fd
  dsimp only
  split
  · exact ⟨none, system, by rw [hopened]⟩
  · rw [hopened]
    obtain ⟨system', hreleased⟩ := release_eq sys _ _ fd
    exact ⟨_, system', by rw [hreleased]⟩

/-! ## The frame that leaves -/

/-- A frame has left the cache for the place of another. -/
structure Evicts (s t : BookedCache σ) (position : Nat) (frame : LinkedFrame) : Prop where
  cache : t.cache = s.cache.erase position frame.key
  uses : t.uses = s.uses
  unpinned : frame.pinCount = 0
  saved : frame.isDirty = true →
    ∃ saved, t.written = s.written ++ saved ∧ frame.toCachedPageFrame ∈ saved

/-- Either the walk fails and leaves the cache alone, or it takes the first frame that is not
pinned. -/
theorem evictFrom_cases (sys : CacheSystem σ) (fd : Option Int) (wal : Bool)
    (nodes : List (Nat × CachedPageKey)) (s : BookedCache σ) :
    (∃ t, evictFrom sys fd wal nodes s = (false, t) ∧ t.cache = s.cache ∧ t.uses = s.uses) ∨
      ∃ t before node after frame, evictFrom sys fd wal nodes s = (true, t) ∧
        nodes = before ++ node :: after ∧
        (∀ n ∈ before, ∀ g, s.cache.find n.2 = some g → g.pinCount ≠ 0) ∧
        s.cache.find node.2 = some frame ∧ Evicts s t node.1 frame := by
  induction nodes with
  | nil => exact .inl ⟨s, rfl, rfl, rfl⟩
  | cons node nodes ih =>
    rw [evictFrom]
    -- a node that is passed over stands before the one that is taken
    have hpass : (∀ g, s.cache.find node.2 = some g → g.pinCount ≠ 0) →
        (∃ t, evictFrom sys fd wal nodes s = (false, t) ∧ t.cache = s.cache ∧ t.uses = s.uses) ∨
        ∃ t before node' after frame, evictFrom sys fd wal nodes s = (true, t) ∧
          node :: nodes = before ++ node' :: after ∧
          (∀ n ∈ before, ∀ g, s.cache.find n.2 = some g → g.pinCount ≠ 0) ∧
          s.cache.find node'.2 = some frame ∧ Evicts s t node'.1 frame := by
      intro hpinned
      rcases ih with hfails | ⟨t, before, node', after, frame, htakes, rfl, hbefore, hfind, hevicts⟩
      · exact .inl hfails
      · refine .inr ⟨t, node :: before, node', after, frame, htakes, rfl, fun n hn => ?_, hfind, hevicts⟩
        rcases List.mem_cons.mp hn with rfl | hn
        · exact hpinned
        · exact hbefore n hn
    cases hfind : s.cache.find node.2 with
    | none => exact hpass fun g hg => by rw [hfind] at hg; cases hg
    | some frame =>
      dsimp only
      split
      · rename_i hpinned
        refine hpass fun g hg => ?_
        rw [hfind] at hg
        cases hg
        exact hpinned
      · rename_i hunpinned
        rw [not_not] at hunpinned
        have hnone : ∀ n ∈ ([] : List (Nat × CachedPageKey)), ∀ g,
            s.cache.find n.2 = some g → g.pinCount ≠ 0 := fun n hn => absurd hn List.not_mem_nil
        by_cases hdirty : frame.isDirty = true
        · obtain ⟨ok, system, hwrite⟩ := writeFrame_eq sys s frame.toCachedPageFrame fd wal
          rw [if_pos hdirty, hwrite]
          cases ok with
          | false => exact .inl ⟨_, rfl, rfl, rfl⟩
          | true =>
            refine .inr ⟨_, [], node, nodes, frame, rfl, rfl, hnone, hfind, rfl, rfl, hunpinned, ?_⟩
            intro _
            exact ⟨[frame.toCachedPageFrame], rfl, List.mem_singleton_self _⟩
        · rw [if_neg hdirty]
          exact .inr ⟨_, [], node, nodes, frame, rfl, rfl, hnone, hfind, rfl, rfl, hunpinned,
            fun h => absurd h hdirty⟩

/-- The frame that leaves is the victim of the cache without positions. -/
theorem victim_forget {before after : List (Nat × CachedPageKey)} {node : Nat × CachedPageKey}
    (hsplit : s.cache.lru.nodes.reverse = before ++ node :: after)
    (hbefore : ∀ n ∈ before, ∀ g, s.cache.find n.2 = some g → g.pinCount ≠ 0)
    (hfind : s.cache.find node.2 = some frame) (hunpinned : frame.pinCount = 0) :
    s.cache.forget.victim = some frame.toCachedPageFrame := by
  have hvalues : s.cache.forget.lru.reverse = before.map Prod.snd ++ node.2 :: after.map Prod.snd := by
    rw [LinkedCache.forget, LinkedList.values, ← List.map_reverse, hsplit, List.map_append,
      List.map_cons]
  have hfound : s.cache.forget.find node.2 = some frame.toCachedPageFrame := by
    rw [LinkedCache.find_forget, hfind]
    rfl
  rw [PageCache.victim, hvalues, List.filterMap_append, List.filterMap_cons_some hfound,
    List.find?_append]
  have hnone : (List.filterMap s.cache.forget.find (before.map Prod.snd)).find?
      (fun frame => decide (frame.pinCount = 0)) = none := by
    refine List.find?_eq_none.mpr fun g hg => ?_
    obtain ⟨key, hkey, hfound⟩ := List.mem_filterMap.mp hg
    obtain ⟨n, hn, rfl⟩ := List.mem_map.mp hkey
    rw [LinkedCache.find_forget] at hfound
    obtain ⟨linked, hlinked, rfl⟩ := Option.map_eq_some_iff.mp hfound
    exact fun heq => hbefore n hn linked hlinked (of_decide_eq_true heq)
  rw [hnone, Option.none_or]
  exact List.find?_cons_of_pos (decide_eq_true hunpinned)

theorem position_of_split {before after : List (Nat × CachedPageKey)} {node : Nat × CachedPageKey}
    (hsplit : s.cache.lru.nodes.reverse = before ++ node :: after)
    (hfind : s.cache.find node.2 = some frame) :
    s.cache.lru.get? node.1 = some frame.key := by
  have hnode : node ∈ s.cache.lru.nodes := by
    rw [← List.mem_reverse, hsplit]
    exact List.mem_append_right _ List.mem_cons_self
  rw [(LinkedCache.mem_of_find hfind).2]
  exact LinkedList.get?_eq_some_iff.mpr hnode

/-- What holds between two calls. -/
structure Books (s : BookedCache σ) : Prop where
  kept : s.cache.Kept
  positive : 0 < s.cache.capacity
  recent : Recent s.uses s.cache.lru.values

/-- The least recently used frame that is not pinned. -/
theorem Books.leastRecent {before after : List (Nat × CachedPageKey)} {node : Nat × CachedPageKey}
    (h : s.Books) (hsplit : s.cache.lru.nodes.reverse = before ++ node :: after)
    (hbefore : ∀ n ∈ before, ∀ g, s.cache.find n.2 = some g → g.pinCount ≠ 0)
    (hg : frame ∈ s.cache.pages) (hunpinned : frame.pinCount = 0) (hne : frame.key ≠ node.2) :
    UsedAfter s.uses node.2 frame.key := by
  have hvalues : s.cache.lru.values.reverse =
      before.map Prod.snd ++ node.2 :: after.map Prod.snd := by
    rw [LinkedList.values, ← List.map_reverse, hsplit, List.map_append, List.map_cons]
  have hordered := List.pairwise_reverse.mpr h.recent.ordered
  have hmem : frame.key ∈ s.cache.lru.values.reverse :=
    List.mem_reverse.mpr (h.kept.listed.mem_iff.mpr (List.mem_map_of_mem hg))
  rw [hvalues] at hordered hmem
  rcases List.mem_append.mp hmem with hin | hin
  · obtain ⟨n, hn, hkey⟩ := List.mem_map.mp hin
    have hfind := h.kept.find_of_mem hg
    rw [← hkey] at hfind
    exact absurd hunpinned (hbefore n hn frame hfind)
  · rcases List.mem_cons.mp hin with heq | hin
    · exact absurd heq hne
    · have hlater := (List.pairwise_append.mp hordered).2.1
      exact (List.pairwise_cons.mp hlater).1 _ hin

/-- What making room leaves: good books, every frame that had to stay, and no new frame. -/
structure Roomed (s t : BookedCache σ) : Prop where
  books : t.Books
  guarded : Guarded s t
  uses : t.uses = s.uses
  absent : ∀ key, s.cache.find key = none → t.cache.find key = none

theorem Books.roomed_of_same (h : s.Books) (hcache : t.cache = s.cache) (huses : t.uses = s.uses) :
    Roomed s t where
  books := ⟨hcache ▸ h.kept, hcache ▸ h.positive, by rw [hcache, huses]; exact h.recent⟩
  guarded frame hframe := .inl ⟨frame, hcache ▸ hframe, rfl⟩
  uses := huses
  absent key hkey := by rwa [hcache]

theorem Books.evictOnePage (h : s.Books) (sys : CacheSystem σ) (fd : Option Int) (wal : Bool) :
    Roomed s (s.evictOnePage sys fd wal).2 ∧ ((s.evictOnePage sys fd wal).1 = true →
      (s.evictOnePage sys fd wal).2.cache.pages.length <
        (s.evictOnePage sys fd wal).2.cache.capacity) := by
  rw [BookedCache.evictOnePage]
  rcases evictFrom_cases sys fd wal s.cache.lru.nodes.reverse s with
    ⟨t, heq, hcache, huses⟩ | ⟨t, before, node, after, frame, heq, hsplit, hbefore, hfind, hevicts⟩
  · rw [heq]
    exact ⟨h.roomed_of_same hcache huses, fun hfails => absurd hfails Bool.false_ne_true⟩
  · rw [heq]
    obtain ⟨hframe, hkey⟩ := LinkedCache.mem_of_find hfind
    have hposition := position_of_split hsplit hfind
    have hlength := @LinkedCache.length_erase_lt s.cache frame node.1 hframe
    refine ⟨⟨⟨?_, ?_, ?_⟩, fun g hg => ?_, hevicts.uses, fun k hk => ?_⟩, fun _ => ?_⟩
    · rw [hevicts.cache]
      exact h.kept.erase hposition
    · rw [hevicts.cache]
      exact h.positive
    · rw [hevicts.cache, hevicts.uses, h.kept.values_erase hposition]
      exact h.recent.sublist List.erase_sublist
    · by_cases hsame : g.key = frame.key
      · -- the frame that goes
        have hgone := List.inj_on_of_nodup_map h.kept.distinct hg hframe hsame
        rw [hgone]
        refine .inr ⟨hevicts.unpinned, fun g' hg' hunpinned hne => ?_, hevicts.saved⟩
        rw [hkey] at hne ⊢
        exact h.leastRecent hsplit hbefore hg' hunpinned hne
      · refine .inl ⟨g, ?_, rfl⟩
        rw [hevicts.cache]
        exact List.mem_filter.mpr ⟨hg, decide_eq_true hsame⟩
    · rw [hevicts.cache]
      refine List.find?_eq_none.mpr fun g hg => ?_
      exact List.find?_eq_none.mp hk g (List.mem_of_mem_filter hg)
    · rw [hevicts.cache]
      exact hlength.trans_le h.kept.room

/-- Without positions, the cache loses its victim or nothing. -/
theorem Books.forget_evictOnePage (h : s.Books) (sys : CacheSystem σ) (fd : Option Int)
    (wal : Bool) : (s.evictOnePage sys fd wal).2.cache.forget = s.cache.forget ∨
      ∃ victim, s.cache.forget.victim = some victim ∧
        (s.evictOnePage sys fd wal).2.cache.forget = s.cache.forget.erase victim.key := by
  rw [BookedCache.evictOnePage]
  rcases evictFrom_cases sys fd wal s.cache.lru.nodes.reverse s with
    ⟨t, heq, hcache, -⟩ | ⟨t, before, node, after, frame, heq, hsplit, hbefore, hfind, hevicts⟩
  · rw [heq, hcache]
    exact .inl rfl
  · rw [heq, hevicts.cache, h.kept.forget_erase (position_of_split hsplit hfind)]
    exact .inr ⟨_, victim_forget hsplit hbefore hfind hevicts.unpinned, rfl⟩

/-- One frame leaves the cache at most. -/
theorem Books.makeRoom (h : s.Books) (sys : CacheSystem σ) (fd : Option Int) (wal : Bool) :
    Roomed s (s.makeRoom sys fd wal s.cache.pages.length).2 ∧
      ((s.makeRoom sys fd wal s.cache.pages.length).1 = true →
        (s.makeRoom sys fd wal s.cache.pages.length).2.cache.pages.length <
          (s.makeRoom sys fd wal s.cache.pages.length).2.cache.capacity) := by
  have hstays : ∀ {t : BookedCache σ} (rounds : Nat), t.cache.pages.length < t.cache.capacity →
      t.makeRoom sys fd wal rounds = (true, t) := by
    intro t rounds hroom
    cases rounds with
    | zero => rfl
    | succ rounds => rw [BookedCache.makeRoom, if_pos hroom]
  by_cases hroom : s.cache.pages.length < s.cache.capacity
  · rw [hstays _ hroom]
    exact ⟨h.roomed_of_same rfl rfl, fun _ => hroom⟩
  · have hpositive := h.positive
    obtain ⟨rounds, hrounds⟩ := Nat.exists_eq_add_one.mpr (by omega : 0 < s.cache.pages.length)
    obtain ⟨hroomed, hplace⟩ := h.evictOnePage sys fd wal
    rw [hrounds, BookedCache.makeRoom, if_neg hroom]
    dsimp only
    cases hevicted : (s.evictOnePage sys fd wal).1 with
    | false => exact ⟨hroomed, fun hfails => absurd hfails Bool.false_ne_true⟩
    | true =>
      have hplace := hplace hevicted
      rw [Bool.not_true, if_neg Bool.false_ne_true, hstays _ hplace]
      exact ⟨hroomed, fun _ => hplace⟩

/-! ## The calls -/

theorem guarded_of_keys (h : t.cache.pages.map (·.key) = s.cache.pages.map (·.key)) :
    Guarded s t := by
  intro frame hframe
  have hkey : frame.key ∈ t.cache.pages.map (·.key) := by
    rw [h]
    exact List.mem_map_of_mem hframe
  obtain ⟨g, hg, hsame⟩ := List.mem_map.mp hkey
  exact .inl ⟨g, hg, hsame⟩

theorem Guarded.mono (h : Guarded s t) (hpages : ∀ g ∈ t.cache.pages, g ∈ u.cache.pages)
    (hwritten : u.written = t.written) : Guarded s u := by
  intro frame hframe
  rcases h frame hframe with ⟨g, hg, hkey⟩ | hleaves
  · exact .inl ⟨g, hpages g hg, hkey⟩
  · refine .inr ⟨hleaves.unpinned, hleaves.leastRecent, ?_⟩
    rw [hwritten]
    exact hleaves.saved

theorem Books.change {f : LinkedFrame → LinkedFrame} (h : s.Books) (key : CachedPageKey)
    (hf : ∀ g, (f g).key = g.key ∧ (f g).lruPosition = g.lruPosition) :
    (s.onCache (·.change key f)).Books :=
  ⟨h.kept.change hf, h.positive, h.recent⟩

/-- A frame that is changed and moved to the front. -/
theorem Books.touch {f : LinkedFrame → LinkedFrame} (h : s.Books)
    (hf : ∀ g, (f g).key = g.key ∧ (f g).lruPosition = g.lruPosition)
    (hfind : s.cache.find key = some frame) :
    ((s.onCache fun c => (c.change key f).touch frame).use key).Books := by
  obtain ⟨hframe, rfl⟩ := LinkedCache.mem_of_find hfind
  have hchanged : f frame ∈ (s.cache.change frame.key f).pages :=
    List.mem_map.mpr ⟨frame, hframe, if_pos rfl⟩
  have hsame : (s.cache.change frame.key f).touch frame =
      (s.cache.change frame.key f).touch (f frame) := by
    simp only [LinkedCache.touch, hf]
  have hvalues : ((s.cache.change frame.key f).touch frame).lru.values =
      frame.key :: s.cache.lru.values.erase frame.key :=
    LinkedList.values_splice (h.kept.positions frame hframe) h.kept.once
  refine ⟨?_, h.positive, ?_⟩
  · dsimp only [onCache, use]
    rw [hsame]
    exact (h.kept.change hf).touch hchanged
  · dsimp only [onCache, use]
    rw [hvalues]
    exact (h.recent.sublist List.erase_sublist).use h.kept.once.not_mem_erase

theorem keys_touch (s : BookedCache σ) {f : LinkedFrame → LinkedFrame} (hf : ∀ g, (f g).key = g.key)
    (key : CachedPageKey) (frame : LinkedFrame) :
    ((s.cache.change key f).touch frame).pages.map (·.key) = s.cache.pages.map (·.key) :=
  (@LinkedCache.keys_change _ _ (.moved (s.cache.lru.splice frame.lruPosition).front)
    fun _ => rfl).trans (LinkedCache.keys_change hf)

/-- A new frame where there is room. -/
theorem Books.emplace {frame : CachedPageFrame} (h : s.Books) (hfind : s.cache.find frame.key = none)
    (hroom : s.cache.pages.length < s.cache.capacity) :
    ((s.onCache (·.emplace frame)).use frame.key).Books := by
  refine ⟨h.kept.emplace hfind hroom, h.positive, h.recent.use fun hmem => ?_⟩
  exact LinkedCache.find_eq_none hfind (h.kept.listed.mem_iff.mp hmem)

theorem mem_emplace {c : LinkedCache} {new : CachedPageFrame} (hframe : frame ∈ c.pages) :
    frame ∈ (c.emplace new).pages := by
  rw [LinkedCache.emplace]
  dsimp only
  split
  · exact hframe
  · exact List.mem_cons_of_mem _ hframe

/-- The counter of misses does not matter. -/
def missed (s : BookedCache σ) : BookedCache σ :=
  s.onCache fun c => { c with missCount := c.missCount + 1 }

theorem Books.missed (h : s.Books) : s.missed.Books :=
  ⟨⟨h.kept.listed, h.kept.once, h.kept.positions, h.kept.room⟩, h.positive, h.recent⟩

theorem Guarded.of_missed (h : Guarded s.missed t) : Guarded s t := by
  intro frame hframe
  rcases h frame hframe with hstays | hleaves
  · exact .inl hstays
  · exact .inr ⟨hleaves.unpinned, hleaves.leastRecent, hleaves.saved⟩

/-- A call that is no `clear` keeps the books, and no frame leaves that has to stay. -/
structure Proper (s t : BookedCache σ) : Prop where
  books : t.Books
  guarded : Guarded s t

theorem Books.fetchPage (h : s.Books) (sys : CacheSystem σ) (key : CachedPageKey)
    (fd : Option Int) : Proper s (s.fetchPage sys key fd).2 := by
  cases hfind : s.cache.find key with
  | some frame =>
    have hcounted : (s.onCache fun c => { c with hitCount := c.hitCount + 1 }).Books :=
      ⟨⟨h.kept.listed, h.kept.once, h.kept.positions, h.kept.room⟩, h.positive, h.recent⟩
    rw [BookedCache.fetchPage, hfind]
    exact ⟨@Books.touch _ _ _ _ .pin hcounted (fun _ => ⟨rfl, rfl⟩) hfind,
      guarded_of_keys (@keys_touch _ s .pin (fun _ => rfl) key frame)⟩
  | none =>
    obtain ⟨hroomed, hplace⟩ := h.missed.makeRoom sys fd false
    have hguarded := hroomed.guarded.of_missed
    rw [BookedCache.fetchPage, hfind]
    generalize hroom : (s.onCache fun c => { c with missCount := c.missCount + 1 }).makeRoom sys fd
      false s.cache.pages.length = room
    have hmissed : s.missed.makeRoom sys fd false s.missed.cache.pages.length = room := hroom
    rw [hmissed] at hroomed hplace hguarded
    obtain ⟨fits, t⟩ := room
    cases fits with
    | false => exact ⟨hroomed.books, hguarded⟩
    | true =>
      obtain ⟨page, system, hread⟩ := readPageFromDisk_eq sys t key fd
      have hbooks : ({ t with system := system } : BookedCache σ).Books :=
        ⟨hroomed.books.kept, hroomed.books.positive, hroomed.books.recent⟩
      dsimp only
      rw [hread]
      cases page with
      | none => exact ⟨hbooks, hguarded.mono (fun g hg => hg) rfl⟩
      | some content =>
        exact ⟨@Books.emplace _ { t with system := system } ⟨key, content, false, 1⟩ hbooks
          (hroomed.absent key hfind) (hplace rfl), hguarded.mono (fun g hg => mem_emplace hg) rfl⟩

theorem Books.newPage (h : s.Books) (sys : CacheSystem σ) (key : CachedPageKey) (page : Page)
    (fd : Option Int) : Proper s (s.newPage sys key page fd).2 := by
  cases hfind : s.cache.find key with
  | some frame =>
    rw [BookedCache.newPage, hfind]
    exact ⟨@Books.touch _ _ _ _ (.renew page) h (fun _ => ⟨rfl, rfl⟩) hfind,
      guarded_of_keys (@keys_touch _ s (.renew page) (fun _ => rfl) key frame)⟩
  | none =>
    obtain ⟨hroomed, hplace⟩ := h.makeRoom sys fd false
    rw [BookedCache.newPage, hfind]
    generalize s.makeRoom sys fd false s.cache.pages.length = room at hroomed hplace ⊢
    obtain ⟨fits, t⟩ := room
    cases fits with
    | false => exact ⟨hroomed.books, hroomed.guarded⟩
    | true =>
      exact ⟨@Books.emplace _ t ⟨key, page, true, 1⟩ hroomed.books (hroomed.absent key hfind)
        (hplace rfl), hroomed.guarded.mono (fun g hg => mem_emplace hg) rfl⟩

/-- A call that changes one frame in place. -/
theorem Books.proper_change {f : LinkedFrame → LinkedFrame} (h : s.Books) (key : CachedPageKey)
    (hf : ∀ g, (f g).key = g.key ∧ (f g).lruPosition = g.lruPosition) :
    Proper s (s.onCache (·.change key f)) :=
  ⟨h.change key hf, guarded_of_keys (LinkedCache.keys_change fun g => (hf g).1)⟩

theorem Books.proper_self (h : s.Books) : Proper s s := ⟨h, guarded_of_keys rfl⟩

theorem Books.unpinPage (h : s.Books) (key : CachedPageKey) (isDirty : Bool) :
    Proper s (s.unpinPage key isDirty).2 := by
  rw [BookedCache.unpinPage]
  split
  · exact h.proper_self
  · split
    · exact h.proper_self
    · exact h.proper_change key fun _ => ⟨rfl, rfl⟩

/-- A flush leaves the keys as they are. -/
theorem Books.flushPage (h : s.Books) (sys : CacheSystem σ) (key : CachedPageKey)
    (fd : Option Int) (wal : Bool) : (s.flushPage sys key fd wal).2.Books ∧
      (s.flushPage sys key fd wal).2.cache.pages.map (·.key) = s.cache.pages.map (·.key) := by
  rw [BookedCache.flushPage]
  split
  · exact ⟨h, rfl⟩
  · rename_i frame hfind
    split
    · exact ⟨h, rfl⟩
    · obtain ⟨ok, system, hwrite⟩ := writeFrame_eq sys s frame.toCachedPageFrame fd wal
      rw [hwrite]
      cases ok with
      | false => exact ⟨⟨h.kept, h.positive, h.recent⟩, rfl⟩
      | true =>
        exact ⟨⟨h.kept.change (f := .clean) fun _ => ⟨rfl, rfl⟩, h.positive, h.recent⟩,
          LinkedCache.keys_change (f := .clean) fun _ => rfl⟩

theorem Books.flushLoop (h : s.Books) (sys : CacheSystem σ) (fd : Option Int) (wal : Bool)
    (keys : List CachedPageKey) : (flushLoop sys fd wal keys s).2.Books ∧
      (flushLoop sys fd wal keys s).2.cache.pages.map (·.key) = s.cache.pages.map (·.key) := by
  induction keys generalizing s with
  | nil => exact ⟨h, rfl⟩
  | cons key keys ih =>
    obtain ⟨hflushed, hkeys⟩ := h.flushPage sys key fd wal
    obtain ⟨hrest, hkeys'⟩ := ih hflushed
    exact ⟨hrest, hkeys'.trans hkeys⟩

theorem Books.clear (h : s.Books) : (s.onCache .clear).Books :=
  ⟨.clear _, h.positive, .nil _⟩

/-- What each call does. -/
theorem Books.step (h : s.Books) (sys : CacheSystem σ) (call : BookedCall) :
    (s.step sys call).Books ∧ (call = .clear ∨ Guarded s (s.step sys call)) := by
  have hproper : ∀ {t : BookedCache σ}, Proper s t →
      t.Books ∧ (call = .clear ∨ Guarded s t) := fun ht => ⟨ht.books, .inr ht.guarded⟩
  cases call with
  | fetchPage key fd => exact hproper (h.fetchPage sys key fd)
  | newPage key page fd => exact hproper (h.newPage sys key page fd)
  | setPage key page => exact hproper (h.proper_change key fun _ => ⟨rfl, rfl⟩)
  | unpinPage key isDirty => exact hproper (h.unpinPage key isDirty)
  | flushPage key fd wal =>
    obtain ⟨hbooks, hkeys⟩ := h.flushPage sys key fd wal
    exact hproper ⟨hbooks, guarded_of_keys hkeys⟩
  | flushAllPages order fd wal =>
    obtain ⟨hbooks, hkeys⟩ := h.flushLoop sys fd wal (order.walk (s.cache.pages.map (·.key)))
    exact hproper ⟨hbooks, guarded_of_keys hkeys⟩
  | clear => exact ⟨h.clear, .inl rfl⟩

theorem books_start (capacity : Nat) (system : σ) : (start capacity system).Books := by
  refine ⟨⟨.nil, List.nodup_nil, fun _ h => absurd h List.not_mem_nil, Nat.zero_le _⟩, ?_, .nil _⟩
  dsimp only [start, LinkedCache.empty]
  split
  · exact Nat.one_pos
  · exact Nat.pos_of_ne_zero ‹_›

theorem Books.run (h : s.Books) (sys : CacheSystem σ) (calls : List BookedCall) :
    (s.run sys calls).Books := by
  induction calls generalizing s with
  | nil => exact h
  | cons call calls ih => exact ih (h.step sys call).1

/-- After any calls the books are in order, and the next call takes no frame away that has to stay,
unless it clears the cache. -/
theorem books_of_run (sys : CacheSystem σ) (capacity : Nat) (system : σ) (calls : List BookedCall) :
    ((start capacity system).run sys calls).cache.Kept ∧
      ∀ call, call = .clear ∨ Guarded ((start capacity system).run sys calls)
        (((start capacity system).run sys calls).step sys call) := by
  have hbooks := (books_start capacity system).run sys calls
  exact ⟨hbooks.kept, fun call => (hbooks.step sys call).2⟩

end BookedCache

end ScratchDb
