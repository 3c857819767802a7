import Rulebook.Dict
import Rulebook.Json.Number

/-!
# JSON values

A `Json` is a tree as it is written: an object is a list of fields, and a record that is written
may list them in an order of its own.  A `Json.Sorted` is a value: in each of its objects the
fields ascend by name and each name stands once.  Values are built from values, and there are no
others (`Sorted.induction`); `Json.sorted` is the value that a tree stands for.

Equality is that of the values: fields are compared one by one, and the two zeros among the
doubles do not differ.
-/

namespace Rulebook

/-- A JSON tree. -/
inductive Json where
  | null
  | bool (b : Bool)
  | number (n : Json.Number)
  | string (s : String)
  | array (items : List Json)
  | object (fields : List (String × Json))
  deriving Repr, Inhabited

namespace Json

mutual

/-- Whether two trees are equal. -/
def beq : Json → Json → Bool
  | null, null => true
  | bool a, bool b => a == b
  | number a, number b => a == b
  | string a, string b => a == b
  | array a, array b => beqItems a b
  | object a, object b => beqFields a b
  | _, _ => false

/-- Whether two lists of trees are equal. -/
def beqItems : List Json → List Json → Bool
  | [], [] => true
  | a :: as, b :: bs => beq a b && beqItems as bs
  | _, _ => false

/-- Whether two lists of fields are equal. -/
def beqFields : List (String × Json) → List (String × Json) → Bool
  | [], [] => true
  | (k, a) :: as, (l, b) :: bs => k == l && beq a b && beqFields as bs
  | _, _ => false

end

instance : BEq Json := ⟨beq⟩

/-- The value of a field of an object. -/
def field? (j : Json) (name : String) : Option Json :=
  match j with
  | object fields => Dict.lookup name fields
  | _ => none

/-! ## Values -/

/-- The fields of each object stand in ascending order of their names. -/
inductive IsSorted : Json → Prop
  | null : IsSorted null
  | bool (b : Bool) : IsSorted (bool b)
  | number (n : Number) : IsSorted (number n)
  | string (s : String) : IsSorted (string s)
  | array {items : List Json} (hitems : ∀ j ∈ items, IsSorted j) : IsSorted (array items)
  | object {fields : List (String × Json)}
    (hascending : fields.Pairwise fun a b => compare a.1 b.1 = .lt)
    (hfields : ∀ f ∈ fields, IsSorted f.2) : IsSorted (object fields)

/-- A JSON value. -/
structure Sorted where
  /-- The value as it is written. -/
  json : Json
  isSorted : json.IsSorted
  deriving Repr

namespace Sorted

instance : BEq Sorted := ⟨fun a b => a.json == b.json⟩

/-- The value that stands for nothing. -/
def null : Sorted := ⟨.null, .null⟩

instance : Inhabited Sorted := ⟨null⟩

/-- A truth value. -/
def bool (b : Bool) : Sorted := ⟨.bool b, .bool b⟩

/-- A number. -/
def number (n : Number) : Sorted := ⟨.number n, .number n⟩

/-- A text. -/
def string (s : String) : Sorted := ⟨.string s, .string s⟩

/-- A list of values. -/
def array (items : List Sorted) : Sorted :=
  ⟨.array (items.map json), .array (List.forall_mem_map.2 fun j _ => j.isSorted)⟩

/-- A field as it is written. -/
def field (f : String × Sorted) : String × Json := (f.1, f.2.json)

/-- Values by name. -/
def object (fields : Dict String Sorted) : Sorted :=
  ⟨.object (fields.entries.map field),
    .object (List.pairwise_map.2 fields.ascending)
      (List.forall_mem_map.2 fun f _ => f.2.isSorted)⟩

theorem array_pmap {items : List Json} (h : ∀ j ∈ items, j.IsSorted) :
    array (items.pmap Sorted.mk h) = ⟨.array items, .array h⟩ := by
  have hjson : (items.pmap Sorted.mk h).map json = items := by
    rw [List.map_pmap]
    exact (List.pmap_eq_map h).trans (List.map_id items)
  simp only [array, hjson]

/-- A field whose value is in order. -/
def ofField (f : String × Json) (h : f.2.IsSorted) : String × Sorted := (f.1, ⟨f.2, h⟩)

theorem map_field_pmap {fields : List (String × Json)} (h : ∀ f ∈ fields, f.2.IsSorted) :
    (fields.pmap ofField h).map field = fields := by
  rw [List.map_pmap]
  exact (List.pmap_eq_map h).trans (List.map_id fields)

/-- Every value is built from values. -/
@[elab_as_elim, induction_eliminator]
theorem induction {motive : Sorted → Prop} (null : motive .null)
    (bool : ∀ b, motive (.bool b)) (number : ∀ n, motive (.number n))
    (string : ∀ s, motive (.string s))
    (array : ∀ items, (∀ j ∈ items, motive j) → motive (.array items))
    (object : ∀ fields : Dict String Sorted, (∀ f ∈ fields.entries, motive f.2) →
      motive (.object fields)) (j : Sorted) : motive j := by
  obtain ⟨j, h⟩ := j
  induction h with
  | null => exact null
  | bool b => exact bool b
  | number n => exact number n
  | string s => exact string s
  | @array items hitems ih =>
    rw [← array_pmap hitems]
    refine array _ fun j hj => ?_
    obtain ⟨i, hi, rfl⟩ := List.mem_pmap.1 hj
    exact ih i hi
  | @object fields hascending hfields ih =>
    have hpairwise := hascending
    rw [← map_field_pmap hfields, List.pairwise_map] at hpairwise
    have hobject : Sorted.object ⟨fields.pmap ofField hfields, hpairwise⟩ =
        ⟨.object fields, .object hascending hfields⟩ := by
      simp only [Sorted.object, map_field_pmap]
    rw [← hobject]
    refine object _ fun f hf => ?_
    obtain ⟨g, hg, rfl⟩ := List.mem_pmap.1 hf
    exact ih g hg

end Sorted

mutual

/-- The value of a tree; of a repeated name the last value stays. -/
def sorted : Json → Sorted
  | null => .null
  | bool b => .bool b
  | number n => .number n
  | string s => .string s
  | array items => .array (sortedItems items)
  | object fields => .object (Dict.ofList (sortedFields fields))

/-- The values of a list of trees. -/
def sortedItems : List Json → List Sorted
  | [] => []
  | j :: rest => sorted j :: sortedItems rest

/-- The values of a list of fields. -/
def sortedFields : List (String × Json) → List (String × Sorted)
  | [] => []
  | (k, j) :: rest => (k, sorted j) :: sortedFields rest

end

instance : Coe Json Sorted := ⟨sorted⟩

end Json

end Rulebook
