import Highlight.Proofs.Json.RoundTrip
import Highlight.Registry
import Mathlib.Data.String.Basic

/-! # Tables of the registry

Tables stay in ascending order of their keys, and a table in order is read back from its text as it
was. So the mapping file and the mapping in memory say the same.
-/

namespace Highlight

namespace TextMap

/-- The keys ascend, so each occurs once. -/
def Ordered (table : TextMap) : Prop :=
  table.Pairwise (·.1 < ·.1)

instance (table : TextMap) : Decidable table.Ordered :=
  inferInstanceAs (Decidable (List.Pairwise _ _))

theorem lookup_entry (key : String) (entry : String × String) (table : TextMap) :
    List.lookup key (entry :: table) =
      if key = entry.1 then some entry.2 else table.lookup key := by
  obtain ⟨name, value⟩ := entry
  by_cases same : key = name
  · simp [same]
  · simp [List.lookup_cons, same, beq_eq_false_iff_ne.mpr same]

theorem lookup_insert (key value other : String) (table : TextMap) :
    (TextMap.insert key value table).lookup other =
      if other = key then some value else table.lookup other := by
  induction table with
  | nil => exact lookup_entry other (key, value) []
  | cons entry table ih =>
      unfold TextMap.insert
      split
      · rename_i same
        simp only [lookup_entry, same]
        split <;> rfl
      · split
        · exact lookup_entry other (key, value) _
        · rename_i different _
          simp only [lookup_entry, ih]
          by_cases here : other = entry.1
          · simp [here, Ne.symm different]
          · simp [here]

theorem mem_insert {key value : String} {table : TextMap} {entry : String × String}
    (member : entry ∈ TextMap.insert key value table) : entry.1 = key ∨ entry ∈ table := by
  induction table with
  | nil => exact .inl (List.mem_singleton.mp member ▸ rfl)
  | cons first table ih =>
      unfold TextMap.insert at member
      split at member
      · cases member with
        | head => exact .inl rfl
        | tail _ later => exact .inr (List.mem_cons_of_mem _ later)
      · split at member
        · cases member with
          | head => exact .inl rfl
          | tail _ later => exact .inr later
        · cases member with
          | head => exact .inr List.mem_cons_self
          | tail _ later => exact (ih later).imp_right (List.mem_cons_of_mem _)

theorem Ordered.insert {table : TextMap} (ordered : table.Ordered) (key value : String) :
    (TextMap.insert key value table).Ordered := by
  induction table with
  | nil => exact List.pairwise_singleton _ _
  | cons first table ih =>
      obtain ⟨below, rest⟩ := List.pairwise_cons.mp ordered
      unfold TextMap.insert
      split
      · rename_i same
        exact List.pairwise_cons.mpr ⟨fun entry member => same ▸ below entry member, rest⟩
      · rename_i different
        split
        · rename_i less
          refine List.pairwise_cons.mpr ⟨fun entry member => ?_, ordered⟩
          cases member with
          | head => exact less
          | tail _ later => exact less.trans (below entry later)
        · rename_i greater
          have greater : first.1 < key :=
            lt_of_le_of_ne (not_lt.mp greater) (Ne.symm different)
          refine List.pairwise_cons.mpr ⟨fun entry member => ?_, ih rest⟩
          obtain same | later := mem_insert member
          · exact same ▸ greater
          · exact below entry later

/-- A key behind all others goes to the end. -/
theorem insert_append {table : TextMap} {key : String} (last : ∀ entry ∈ table, entry.1 < key)
    (value : String) : TextMap.insert key value table = table ++ [(key, value)] := by
  induction table with
  | nil => rfl
  | cons first table ih =>
      obtain ⟨less, rest⟩ := List.forall_mem_cons.mp last
      unfold TextMap.insert
      rw [if_neg less.ne', if_neg less.not_gt, ih rest, List.cons_append]

end TextMap

namespace Mapping

/-- Both tables are in order. -/
def Ordered (m : Mapping) : Prop :=
  m.extensions.Ordered ∧ m.languages.Ordered

instance (m : Mapping) : Decidable m.Ordered :=
  inferInstanceAs (Decidable (_ ∧ _))

/-! ## New entries -/

theorem lookup_extensions_add (m : Mapping) (name : String) (extensions : List String)
    (definition other : String) :
    (m.add name extensions definition).extensions.lookup other =
      if other ∈ extensions then some definition else m.extensions.lookup other := by
  unfold add
  induction extensions generalizing m with
  | nil => rfl
  | cons extension extensions ih =>
      have later := ih { m with extensions := TextMap.insert extension definition m.extensions }
      simp only [List.foldl_cons]
      rw [later, TextMap.lookup_insert]
      by_cases member : other ∈ extensions <;> by_cases here : other = extension <;>
        simp [member, here]

theorem lookup_languages_add (m : Mapping) (name : String) (extensions : List String)
    (definition other : String) :
    (m.add name extensions definition).languages.lookup other =
      if other = name then some definition else m.languages.lookup other :=
  TextMap.lookup_insert name definition other m.languages

theorem Ordered.add {m : Mapping} (ordered : m.Ordered) (name : String)
    (extensions : List String) (definition : String) :
    (m.add name extensions definition).Ordered := by
  refine ⟨?_, ordered.2.insert name definition⟩
  unfold Mapping.add
  induction extensions generalizing m with
  | nil => exact ordered.1
  | cons extension extensions ih =>
      exact @ih { m with extensions := TextMap.insert extension definition m.extensions }
        ⟨ordered.1.insert extension definition, ordered.2⟩

/-! ## The mapping file -/

theorem plain_tableData (table : TextMap) : Json.Plain (tableData table) := by
  refine .record fun field member => ?_
  obtain ⟨entry, _, rfl⟩ := List.mem_map.mp member
  exact .text entry.2

theorem tableOfData?_tableData {table : TextMap} (ordered : table.Ordered) :
    tableOfData? (tableData table) = some table := by
  -- read up to some entry, the table is what stands before that entry
  have run (front back : TextMap) (ordered : (front ++ back).Pairwise (·.1 < ·.1)) :
      (back.map fun entry => (entry.1, Data.text entry.2)).foldlM
        (fun table entry => entry.2.asText?.map fun text => TextMap.insert entry.1 text table)
        front = some (front ++ back) := by
    induction back generalizing front with
    | nil => simp
    | cons entry back ih =>
        have before : ∀ other ∈ front, other.1 < entry.1 := fun other member =>
          (List.pairwise_append.mp ordered).2.2 other member entry List.mem_cons_self
        rw [List.append_cons] at ordered
        rw [List.map_cons, List.foldlM_cons, List.append_cons, ← ih _ ordered,
          ← TextMap.insert_append before]
        rfl
  exact run [] table ordered

theorem ordered_tableOfData? {data : Data} {table : TextMap}
    (read : tableOfData? data = some table) : table.Ordered := by
  cases data with
  | record fields =>
      have run (fields : List (String × Data)) (front : TextMap) (ordered : front.Ordered)
          (read : fields.foldlM (fun table field =>
            field.2.asText?.map fun text => TextMap.insert field.1 text table) front = some table) :
          table.Ordered := by
        induction fields generalizing front with
        | nil => exact Option.some.inj read ▸ ordered
        | cons field fields ih =>
            rw [List.foldlM_cons] at read
            obtain ⟨next, step, later⟩ := Option.bind_eq_some_iff.mp read
            obtain ⟨text, _, rfl⟩ := Option.map_eq_some_iff.mp step
            exact ih _ (ordered.insert field.1 text) later
      exact run fields [] .nil read
  | _ => cases read

/-- The text of a mapping holds that mapping. -/
theorem parse_print {m : Mapping} (ordered : m.Ordered) : parse m.print = .ok m := by
  have plain : Json.Plain
      (.record [("extensions", tableData m.extensions), ("languages", tableData m.languages)]) := by
    refine .record fun field member => ?_
    simp only [List.mem_cons, List.not_mem_nil, or_false] at member
    obtain rfl | rfl := member
    · exact plain_tableData m.extensions
    · exact plain_tableData m.languages
  have data : ofData? (.record [("extensions", tableData m.extensions),
      ("languages", tableData m.languages)]) = some m := by
    have members : Data.members? Json.rules ["extensions", "languages"]
        (.record [("extensions", tableData m.extensions), ("languages", tableData m.languages)]) =
        some [some (tableData m.extensions), some (tableData m.languages)] := by
      simp [Data.members?, List.lookup_cons]
    simp only [ofData?, members, Data.optional, tableOfData?_tableData ordered.1,
      tableOfData?_tableData ordered.2]
    rfl
  rw [parse, print, String.toList_ofList, Json.parse?_print plain, Option.bind_some, data]

theorem ordered_ofData? {data : Data} {m : Mapping} (read : ofData? data = some m) :
    m.Ordered := by
  have table {field : Option Data} {table : TextMap}
      (read : Data.optional tableOfData? [] field = some table) : table.Ordered := by
    cases field with
    | none => exact Option.some.inj read ▸ .nil
    | some data => exact ordered_tableOfData? read
  unfold ofData? at read
  split at read
  · obtain ⟨extensions, first, read⟩ := Option.bind_eq_some_iff.mp read
    obtain ⟨languages, second, read⟩ := Option.bind_eq_some_iff.mp read
    exact Option.some.inj read ▸ ⟨table first, table second⟩
  · cases read

theorem ordered_parse {text : String} {m : Mapping} (read : parse text = .ok m) : m.Ordered := by
  unfold parse at read
  split at read
  · rename_i found
    obtain ⟨data, _, read'⟩ := Option.bind_eq_some_iff.mp found
    exact Except.ok.inj read ▸ ordered_ofData? read'
  · cases read

end Mapping

end Highlight
