import ScratchDb.Catalog.SchemaText
import ScratchDb.Lib.Json
import ScratchDb.Select.Results
import ScratchDb.Server.JsonStrings

/-!
# Results in JSON

Model of `query_result_to_json` of `src/server.cpp`. Whatever texts a result
holds, what the server writes is one JSON object, and a reader of JSON gets the
result back from it: control characters, quotes and backslashes included.
-/

namespace ScratchDb

namespace JsonResponses

open JsonStrings Json

/-- What the executor hands to the server: a result and its message. -/
structure ServedResult extends Select.QueryResult where
  message : String
deriving DecidableEq

/-! ## Writing -/

def quotedText (text : String) : List Char := quoted (jsonEscape text.toList)

def field (name : String) (value : List Char) : List Char := quoted name.toList ++ ':' :: value

/-- A loop that writes a comma in front of all items but the first. -/
def withCommas : List (List Char) → List Char
  | [] => []
  | item :: items => item ++ items.flatMap fun item => ',' :: item

def boolText (b : Bool) : List Char := if b then ['t', 'r', 'u', 'e'] else ['f', 'a', 'l', 's', 'e']

def errorText (e : QueryError) : List Char :=
  '{' :: (field "message" (quotedText e.message) ++
    ',' :: (field "token" (quotedText e.token) ++
    ',' :: (field "position" (decimal e.position) ++ ['}'])))

def columnText (c : Select.QueryResultColumn) : List Char :=
  '{' :: (field "name" (quotedText c.name) ++
    ',' :: (field "type" (quotedText c.type) ++ ['}']))

def rowText (row : List String) : List Char :=
  '[' :: (withCommas (row.map quotedText) ++ [']'])

def metadataText (r : ServedResult) : List Char :=
  '{' :: (field "row_count" (decimal r.rowCount) ++
    ',' :: (field "message" (quotedText r.message) ++ ['}']))

/-- `query_result_to_json`. -/
def queryResultToJson (r : ServedResult) (sessionId : String) : List Char :=
  '{' :: (field "ok" (boolText r.isOk) ++
    ',' :: (field "session_id" (quotedText sessionId) ++
    (match r.error with
      | some e => ',' :: field "error" (errorText e)
      | none => []) ++
    ',' :: (field "columns" ('[' :: (withCommas (r.columns.map columnText) ++ [']'])) ++
    ',' :: (field "rows" ('[' :: (withCommas (r.rows.map rowText) ++ [']'])) ++
    ',' :: (field "metadata" (metadataText r) ++ ['}'])))))

/-! ## What it says -/

def text (s : String) : Json := .string s.toList

def member (name : String) (value : Json) : List Char × Json := (name.toList, value)

def errorJson (e : QueryError) : Json :=
  .object [member "message" (text e.message), member "token" (text e.token),
    member "position" (natural e.position)]

def columnJson (c : Select.QueryResultColumn) : Json :=
  .object [member "name" (text c.name), member "type" (text c.type)]

def metadataJson (r : ServedResult) : Json :=
  .object [member "row_count" (natural r.rowCount), member "message" (text r.message)]

/-- The result as a JSON object. -/
def resultJson (r : ServedResult) (sessionId : String) : Json :=
  .object ([member "ok" (.bool r.isOk), member "session_id" (text sessionId)] ++
    (r.error.toList.map fun e => member "error" (errorJson e)) ++
    [member "columns" (.array (r.columns.map columnJson)),
      member "rows" (.array (r.rows.map fun row => .array (row.map text))),
      member "metadata" (metadataJson r)])

/-! ## The reader gets it back -/

theorem spellsChar_escapeChar (c : Char) : SpellsChar (escapeChar c) c := by
  rw [escapeChar.eq_def]
  split
  · exact spellsChar_simple rfl
  · exact spellsChar_simple rfl
  · exact spellsChar_simple rfl
  · exact spellsChar_simple rfl
  · exact spellsChar_simple rfl
  · rename_i hquote hslash _ _ _
    split
    · rename_i hcontrol
      exact spellsChar_control hcontrol
    · rename_i hcontrol
      exact spellsChar_self (Nat.le_of_not_lt hcontrol) hquote hslash

theorem spellsString_quotedText (s : String) : SpellsString (quotedText s) s.toList :=
  spellsString_flatMap fun c _ => spellsChar_escapeChar c

theorem spells_quotedText (s : String) : Spells (quotedText s) (text s) :=
  spells_string (spellsString_quotedText s)

theorem spells_boolText (b : Bool) : Spells (boolText b) (.bool b) := by
  cases b with
  | false => exact spells_false
  | true => exact spells_true

/-- The names of the fields need no escapes. -/
def isPlain (c : Char) : Bool := 0x20 ≤ c.toNat && c != '"' && c != '\\'

theorem spellsMember_field (name : String) {value : List Char} {v : Json}
    (hname : name.toList.all isPlain = true) (hvalue : Spells value v) :
    SpellsMember (field name value) (member name v) := by
  refine ⟨quoted name.toList, value, rfl, ?_, hvalue⟩
  have hself : name.toList.flatMap (fun c => [c]) = name.toList := List.flatMap_singleton' _
  have hspelled : SpellsString ('"' :: (name.toList.flatMap (fun c => [c]) ++ ['"'])) name.toList := by
    apply spellsString_flatMap
    intro c hc
    have hplain := List.all_eq_true.mp hname c hc
    simp only [isPlain, Bool.and_eq_true, decide_eq_true_eq, bne_iff_ne] at hplain
    exact spellsChar_self hplain.1.1 hplain.1.2 hplain.2
  rw [hself] at hspelled
  exact hspelled

theorem withCommas_cons (item : List Char) (items : List (List Char)) :
    withCommas (item :: items) = item ++ items.flatMap fun item => ',' :: item := rfl

theorem withCommas_eq (texts : List (List Char)) : withCommas texts = Json.commaSeparated texts := by
  cases texts with
  | nil => rfl
  | cons t texts =>
    induction texts generalizing t with
    | nil =>
      rw [withCommas, List.flatMap_nil, List.append_nil]
      exact List.intercalate_singleton.symm
    | cons u texts ih =>
      have hrest := ih u
      rw [withCommas] at hrest
      rw [withCommas, List.flatMap_cons, List.cons_append, hrest, Json.commaSeparated_cons_cons]

/-- A list of items that the reader takes for these values. -/
theorem spells_list {α : Type} {write : α → List Char} {value : α → Json}
    (h : ∀ a, Spells (write a) (value a)) (items : List α) :
    Spells ('[' :: (withCommas (items.map write) ++ [']'])) (.array (items.map value)) := by
  rw [withCommas_eq]
  apply spells_array
  induction items with
  | nil => exact .nil
  | cons a items ih => exact .cons (h a) ih

theorem spells_errorText (e : QueryError) : Spells (errorText e) (errorJson e) := by
  rw [errorText, decimal, errorJson]
  have hmessage := spellsMember_field "message" (by decide) (spells_quotedText e.message)
  have htoken := spellsMember_field "token" (by decide) (spells_quotedText e.token)
  have hposition := spellsMember_field "position" (by decide) (spells_natural e.position)
  have hobject := spells_object (.cons hmessage (.cons htoken (.cons hposition .nil)))
  simpa only [← withCommas_eq, withCommas_cons, List.flatMap_cons, List.flatMap_nil, List.append_nil,
    List.cons_append, List.append_assoc] using hobject

theorem spells_columnText (c : Select.QueryResultColumn) : Spells (columnText c) (columnJson c) := by
  rw [columnText, columnJson]
  have hname := spellsMember_field "name" (by decide) (spells_quotedText c.name)
  have htype := spellsMember_field "type" (by decide) (spells_quotedText c.type)
  have hobject := spells_object (.cons hname (.cons htype .nil))
  simpa only [← withCommas_eq, withCommas_cons, List.flatMap_cons, List.flatMap_nil, List.append_nil,
    List.cons_append, List.append_assoc] using hobject

theorem spells_rowText (row : List String) : Spells (rowText row) (.array (row.map text)) :=
  spells_list spells_quotedText row

theorem spells_metadataText (r : ServedResult) : Spells (metadataText r) (metadataJson r) := by
  rw [metadataText, decimal, metadataJson]
  have hcount := spellsMember_field "row_count" (by decide) (spells_natural r.rowCount)
  have hmessage := spellsMember_field "message" (by decide) (spells_quotedText r.message)
  have hobject := spells_object (.cons hcount (.cons hmessage .nil))
  simpa only [← withCommas_eq, withCommas_cons, List.flatMap_cons, List.flatMap_nil, List.append_nil,
    List.cons_append, List.append_assoc] using hobject

theorem spells_queryResultToJson (r : ServedResult) (sessionId : String) :
    Spells (queryResultToJson r sessionId) (resultJson r sessionId) := by
  have hok := spellsMember_field "ok" (by decide) (spells_boolText r.isOk)
  have hsession := spellsMember_field "session_id" (by decide) (spells_quotedText sessionId)
  have hcolumns := spellsMember_field "columns" (by decide) (spells_list spells_columnText r.columns)
  have hrows := spellsMember_field "rows" (by decide)
    (spells_list spells_rowText r.rows)
  have hmetadata := spellsMember_field "metadata" (by decide) (spells_metadataText r)
  have hlast := List.Forall₂.cons hcolumns (.cons hrows (.cons hmetadata .nil))
  rw [queryResultToJson, resultJson]
  cases r.error with
  | none =>
    have hobject := spells_object (.cons hok (.cons hsession hlast))
    simpa only [← withCommas_eq, withCommas_cons, List.flatMap_cons, List.flatMap_nil, List.append_nil,
      List.cons_append, List.append_assoc, List.nil_append, Option.toList_none, Option.toList_some,
      List.map_cons, List.map_nil] using hobject
  | some e =>
    have herror := spellsMember_field "error" (by decide) (spells_errorText e)
    have hobject := spells_object (.cons hok (.cons hsession (.cons herror hlast)))
    simpa only [← withCommas_eq, withCommas_cons, List.flatMap_cons, List.flatMap_nil, List.append_nil,
      List.cons_append, List.append_assoc, List.nil_append, Option.toList_none, Option.toList_some,
      List.map_cons, List.map_nil] using hobject

/-- The body of a response is a JSON text, from which a reader gets the result back. -/
theorem read_queryResultToJson (r : ServedResult) (sessionId : String) :
    Json.read (queryResultToJson r sessionId) = some (resultJson r sessionId) :=
  read_spelled (spells_queryResultToJson r sessionId)

end JsonResponses

end ScratchDb
