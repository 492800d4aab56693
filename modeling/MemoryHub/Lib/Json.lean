import Mathlib.Data.Rat.Defs
import Mathlib.Tactic.Common

/-!
# JSON values and records

A record is written as an object with a field for each of its members.  It is read from an
object by the names of its members, where other names are passed over and a name that occurs twice
is refused, or from an array with the members in their order, which may stop short of those that
have a default.

Main results:

- Theorem `entry_of_mem`: a member is found under its name.
- Theorem `asList_map`, `asUInt32_ofUInt32`: lists and numbers are read as they were written.
-/

/-- A JSON value.  A number is an integer if it is written as one, without a fraction. -/
inductive Json where
  | null
  | bool (b : Bool)
  | int (value : ℤ)
  | num (value : ℚ)
  | str (text : String)
  | arr (items : List Json)
  | obj (fields : List (String × Json))

namespace Json

/-! ## Reading -/

/-- The values under a name. -/
def named (name : String) (fields : List (String × Json)) : List Json :=
  (fields.filter fun f => f.1 = name).map Prod.snd

/-- What is found of a member of a record. -/
inductive Member where
  | refused
  | absent
  | found (value : Json)

/-- A member of an object: it may be absent, and its name occurs once. -/
def ofNamed : List Json → Member
  | [] => .absent
  | [v] => .found v
  | _ => .refused

/-- A member of a record that is an object. -/
def entry (name : String) : Json → Member
  | .obj fields => ofNamed (named name fields)
  | _ => .refused

/-- A member of a record with members of these names, in their order. -/
def member (names : List String) (name : String) : Json → Member
  | .arr items =>
      if items.length ≤ names.length then
        match items[names.idxOf name]? with
        | some v => .found v
        | none => .absent
      else .refused
  | j => j.entry name

section

variable {α : Type} (read : Json → Option α)

/-- A member that has to be there. -/
def required : Member → Option α
  | .found v => read v
  | _ => none

/-- A member that is null when there is nothing in it, with nothing as the default. -/
def optional : Member → Option (Option α)
  | .absent => some none
  | .found .null => some none
  | .found v => (read v).map some
  | .refused => none

/-- A member with a default. -/
def withDefault (default : α) : Member → Option α
  | .absent => some default
  | .found v => read v
  | .refused => none

end

/-- The text of a variant without data, or an object with the variant as its one name. -/
def asVariant : Json → Option String
  | .str text => some text
  | .obj [(name, .null)] => some name
  | _ => none

def asStr : Json → Option String
  | .str text => some text
  | _ => none

def asBool : Json → Option Bool
  | .bool b => some b
  | _ => none

/-- An integer of so many values, from zero on. -/
def asNat (size : Nat) : Json → Option Nat
  | .int n => if 0 ≤ n ∧ n.toNat < size then some n.toNat else none
  | _ => none

def asUInt32 (j : Json) : Option UInt32 :=
  (j.asNat UInt32.size).map UInt32.ofNat

def asUInt64 (j : Json) : Option UInt64 :=
  (j.asNat UInt64.size).map UInt64.ofNat

def asNum : Json → Option ℚ
  | .int value => some value
  | .num value => some value
  | _ => none

/-- All items of an array. -/
def asList {α : Type} (read : Json → Option α) : Json → Option (List α)
  | .arr items => items.mapM read
  | _ => none

/-! ## Writing -/

/-- A field that is left out when there is nothing in it. -/
def field (name : String) : Option Json → List (String × Json)
  | some v => [(name, v)]
  | none => []

def ofUInt32 (n : UInt32) : Json :=
  .int n.toNat

/-- A member that is null when there is nothing in it. -/
def orNull : Option Json → Json
  | some v => v
  | none => .null

theorem asNat_int {n size : Nat} (h : n < size) : (int n).asNat size = some n := by
  rw [asNat, Int.toNat_natCast, if_pos ⟨Int.natCast_nonneg n, h⟩]

theorem asUInt32_ofUInt32 (n : UInt32) : (ofUInt32 n).asUInt32 = some n := by
  rw [asUInt32, ofUInt32, asNat_int n.toNat_lt_size, Option.map_some, UInt32.ofNat_toNat]

/-! ## Reading what was written -/

/-- Where no name occurs twice, a member is found under its name. -/
theorem entry_of_mem {name : String} {v : Json} {fields : List (String × Json)}
    (hnodup : (fields.map Prod.fst).Nodup) (h : (name, v) ∈ fields) :
    (obj fields).entry name = .found v := by
  have hnone : ∀ {rest : List (String × Json)}, name ∉ rest.map Prod.fst →
      named name rest = [] := by
    intro rest hrest
    have hfilter : rest.filter (fun f => f.1 = name) = [] := by
      refine List.filter_eq_nil_iff.mpr ?_
      intro f hf
      simp only [decide_eq_true_eq]
      rintro rfl
      exact hrest (List.mem_map.mpr ⟨f, hf, rfl⟩)
    rw [named, hfilter, List.map_nil]
  have hnamed : named name fields = [v] := by
    induction fields with
    | nil => exact absurd h List.not_mem_nil
    | cons f fields ih =>
        rw [List.map_cons, List.nodup_cons] at hnodup
        rcases List.mem_cons.mp h with rfl | h
        · rw [named, List.filter_cons_of_pos (by simp), List.map_cons, ← named, hnone hnodup.1]
        · have hne : f.1 ≠ name := by
            rintro rfl
            exact hnodup.1 (List.mem_map.mpr ⟨_, h, rfl⟩)
          rw [named, List.filter_cons_of_neg (by simpa using hne), ← named, ih hnodup.2 h]
  rw [entry, hnamed, ofNamed]

section

variable {α : Type} {read : Json → Option α} {write : α → Json}

/-- A list is read item by item. -/
theorem asList_map {items : List α} (hread : ∀ a ∈ items, read (write a) = some a) :
    asList read (.arr (items.map write)) = some items := by
  change (items.map write).mapM read = some items
  induction items with
  | nil => rfl
  | cons a items ih =>
      rw [List.map_cons, List.mapM_cons, hread a List.mem_cons_self,
        ih fun b hb => hread b (List.mem_cons_of_mem _ hb)]
      rfl

end

end Json
