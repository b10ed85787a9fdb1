import ThinkWatch.Policy.Serialize

/-!
# Walks through JSON values

The values within a value, by the keys and the places that lead to them, and the value with the texts
of its floats replaced.
-/

namespace ThinkWatch.Policy.Json

/-- What holds of a value when it holds of its items and members holds of every value. -/
theorem induct {P : Json → Prop} (null : P null) (bool : ∀ b, P (bool b)) (int : ∀ n, P (int n))
    (float : ∀ text, P (float text)) (str : ∀ s, P (str s))
    (arr : ∀ items, (∀ item ∈ items, P item) → P (arr items))
    (obj : ∀ fields, (∀ field ∈ fields, P field.2) → P (obj fields)) : ∀ v, P v
  | .null => null
  | .bool b => bool b
  | .int n => int n
  | .float text => float text
  | .str s => str s
  | .arr items => arr items fun item _ => induct null bool int float str arr obj item
  | .obj fields => obj fields fun field hfield =>
      have : sizeOf field.2 < sizeOf field := by cases field; simp only [Prod.mk.sizeOf_spec]; omega
      have := List.sizeOf_lt_of_mem hfield
      induct null bool int float str arr obj field.2
termination_by v => sizeOf v
decreasing_by
  · have := List.sizeOf_lt_of_mem ‹_›
    simp only [Json.arr.sizeOf_spec]
    omega
  · simp only [Json.obj.sizeOf_spec]
    omega

/-! ## Paths -/

/-- One step into a value. -/
inductive Step where
  | key (k : String)
  | index (i : Nat)
deriving DecidableEq, Repr

def child : Json → Step → Option Json
  | obj fields, .key k => fields.lookup k
  | arr items, .index i => items[i]?
  | _, _ => none

def descend (v : Json) (path : List Step) : Option Json := path.foldlM child v

@[simp] theorem descend_nil (v : Json) : v.descend [] = some v := rfl

@[simp] theorem descend_cons (v : Json) (s : Step) (path : List Step) :
    v.descend (s :: path) = (v.child s).bind fun x => x.descend path := rfl

theorem descend_snoc (v : Json) (path : List Step) (s : Step) :
    v.descend (path ++ [s]) = (v.descend path).bind fun x => x.child s := by
  simp [descend, List.foldlM_append]

/-- A value without what is in it: how many items, or which keys. -/
def outline : Json → Json
  | arr items => arr (items.map fun _ => null)
  | obj fields => obj (fields.map fun field => (field.1, null))
  | v => v

/-! ## Floats -/

mutual

/-- The value with the text of every float replaced. -/
def mapFloats (f : String → String) : Json → Json
  | float text => float (f text)
  | arr items => arr (mapFloatsItems f items)
  | obj fields => obj (mapFloatsFields f fields)
  | v => v

def mapFloatsItems (f : String → String) : List Json → List Json
  | [] => []
  | item :: items => mapFloats f item :: mapFloatsItems f items

def mapFloatsFields (f : String → String) : List (String × Json) → List (String × Json)
  | [] => []
  | (key, value) :: fields => (key, mapFloats f value) :: mapFloatsFields f fields

end

theorem mapFloatsItems_eq (f : String → String) (items : List Json) :
    mapFloatsItems f items = items.map (mapFloats f) := by
  induction items with
  | nil => rfl
  | cons item items ih => rw [mapFloatsItems, ih, List.map_cons]

theorem mapFloatsFields_eq (f : String → String) (fields : List (String × Json)) :
    mapFloatsFields f fields = fields.map fun field => (field.1, mapFloats f field.2) := by
  induction fields with
  | nil => rfl
  | cons field fields ih => rw [← Prod.mk.eta (p := field), mapFloatsFields, ih, List.map_cons]

theorem printedItems_iff {items : List Json} : PrintedItems items ↔ ∀ item ∈ items, Printed item := by
  induction items with
  | nil => simp [PrintedItems]
  | cons item items ih => rw [PrintedItems, ih, List.forall_mem_cons]

theorem printedFields_iff {fields : List (String × Json)} :
    PrintedFields fields ↔ ∀ field ∈ fields, Printed field.2 := by
  induction fields with
  | nil => simp [PrintedFields]
  | cons field fields ih =>
    rw [← Prod.mk.eta (p := field), PrintedFields, ih, List.forall_mem_cons]

theorem printed_mapFloats {f : String → String}
    (hf : ∀ text, IsFloatText text.toList → IsFloatText (f text).toList) {v : Json}
    (h : v.Printed) : (v.mapFloats f).Printed := by
  induction v using induct with
  | float text => exact hf text h
  | arr items ih =>
    rw [mapFloats, Printed, mapFloatsItems_eq, printedItems_iff]
    intro item hitem
    obtain ⟨x, hx, rfl⟩ := List.mem_map.mp hitem
    exact ih x hx (printedItems_iff.mp h x hx)
  | obj fields ih =>
    rw [mapFloats, Printed, mapFloatsFields_eq, printedFields_iff]
    intro field hfield
    obtain ⟨x, hx, rfl⟩ := List.mem_map.mp hfield
    exact ih x hx (printedFields_iff.mp h x hx)
  | _ => exact h

/-- Two values with the same text are the same. -/
theorem serialize_inj {v w : Json} (hv : v.Printed) (hw : w.Printed)
    (h : v.serialize = w.serialize) : v = w :=
  (serialize_append_inj v w hv hw ends_nil ends_nil (congrArg (· ++ []) h)).1

end ThinkWatch.Policy.Json
