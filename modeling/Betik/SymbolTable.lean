/-!
# Symbol tables

The variables of a run and their values. The first assignment to a name makes an entry, later ones
overwrite its value, and nothing removes it. Names are not scoped.
-/

namespace Betik

/-- The first entry of `name` gets `value`; without one, a new entry is added at the end. -/
def overwrite (name : String) (value : Int64) : List (String × Int64) → List (String × Int64)
  | [] => [(name, value)]
  | (x, v) :: rest =>
    if x = name then (x, value) :: rest else (x, v) :: overwrite name value rest

/-- Overwriting keeps the names in place and adds a missing one at the end. -/
theorem map_fst_overwrite (name : String) (value : Int64) (entries : List (String × Int64)) :
    (overwrite name value entries).map Prod.fst =
      if name ∈ entries.map Prod.fst then entries.map Prod.fst
      else entries.map Prod.fst ++ [name] := by
  induction entries with
  | nil => simp [overwrite]
  | cons entry rest ih =>
    obtain ⟨x, v⟩ := entry
    by_cases hx : x = name
    · simp [overwrite, hx]
    · have hx' : name ≠ x := fun h => hx h.symm
      simp only [overwrite, if_neg hx, List.map_cons, ih, List.mem_cons, hx', false_or]
      split <;> rfl

theorem nodup_overwrite (name : String) (value : Int64) {entries : List (String × Int64)}
    (h : (entries.map Prod.fst).Nodup) :
    ((overwrite name value entries).map Prod.fst).Nodup := by
  rw [map_fst_overwrite]
  split
  · exact h
  · next hname =>
    rw [List.nodup_append]
    refine ⟨h, by simp, ?_⟩
    intro x hx y hy heq
    rw [List.mem_singleton] at hy
    exact hname (hy ▸ heq ▸ hx)

/-- Overwriting changes what is looked up under the name, and nothing else. -/
theorem lookup_overwrite (name : String) (value : Int64) (entries : List (String × Int64))
    (x : String) :
    (overwrite name value entries).lookup x =
      if x = name then some value else entries.lookup x := by
  induction entries with
  | nil =>
    by_cases hx : x = name
    · simp [overwrite, hx]
    · simp [overwrite, List.lookup_cons, beq_false_of_ne hx, hx]
  | cons entry rest ih =>
    obtain ⟨y, v⟩ := entry
    by_cases hx : x = y
    · by_cases hy : y = name <;> simp [overwrite, hx, hy]
    · have hne : (x == y) = false := beq_false_of_ne hx
      by_cases hy : y = name
      · subst hy
        simp [overwrite, List.lookup_cons, hne, hx]
      · simp [overwrite, List.lookup_cons, hne, hy, ih]

/-- Names with their values, in the order of their first assignments. No name occurs twice. -/
structure SymbolTable where
  entries : List (String × Int64) := []
  nodup : (entries.map Prod.fst).Nodup := by simp
deriving DecidableEq

namespace SymbolTable

/-- A table without variables. -/
def empty : SymbolTable := {}

/-- The value of a name, if it was assigned one. -/
def get? (t : SymbolTable) (name : String) : Option Int64 :=
  t.entries.lookup name

/-- Gives a name a value. -/
def assign (t : SymbolTable) (name : String) (value : Int64) : SymbolTable where
  entries := overwrite name value t.entries
  nodup := nodup_overwrite name value t.nodup

theorem get?_assign (t : SymbolTable) (name : String) (value : Int64) (x : String) :
    (t.assign name value).get? x = if x = name then some value else t.get? x :=
  lookup_overwrite name value t.entries x

/-- The number of variables. -/
def size (t : SymbolTable) : Nat :=
  t.entries.length

/-- Whether there are no variables. -/
def isEmpty (t : SymbolTable) : Bool :=
  t.entries.isEmpty

end SymbolTable

end Betik
