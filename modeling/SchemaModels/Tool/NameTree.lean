import SchemaModels.Text.Basic

/-!
# Trees of names

A tree holds values at lists of names, as directories hold files. Looking up a list goes down one
name after the other, so it does not depend on how many values there are elsewhere. The laws say
what is found after `put` (`get?_put_self`, `get?_put_of_ne`), and that to put what is there already
changes nothing (`put_eq_self`).
-/

namespace SchemaModels.Tool

inductive NameTree (α : Type)
  | empty
  /-- What is at a name, what is below it, and the other names beside it. -/
  | entry (name : Text) (value : Option α) (below others : NameTree α)
  deriving DecidableEq, Repr, Inhabited

namespace NameTree

/-- What is at a list of names. At the empty list there is nothing. -/
def get? : NameTree α → List Text → Option α
  | .empty, _ => none
  | .entry .., [] => none
  | .entry n v below others, name :: names =>
    if name = n then if names = [] then v else below.get? names
    else others.get? (name :: names)

/-- The tree of a single value. -/
def single (a : α) : List Text → NameTree α
  | [] => .empty
  | name :: names =>
    if names = [] then .entry name (some a) .empty .empty
    else .entry name none (single a names) .empty

/-- Puts a value at a list of names, which must not be empty. -/
def put (a : α) : NameTree α → List Text → NameTree α
  | .empty, names => single a names
  | .entry n v below others, [] => .entry n v below others
  | .entry n v below others, name :: names =>
    if name = n then
      if names = [] then .entry n (some a) below others
      else .entry n v (below.put a names) others
    else .entry n v below (others.put a (name :: names))

/-- All lists of names with a value. -/
def toList : NameTree α → List (List Text × α)
  | .empty => []
  | .entry n v below others =>
    v.toList.map ([n], ·) ++ below.toList.map (fun e => (n :: e.1, e.2)) ++ others.toList

theorem get?_single_self (a : α) {l : List Text} (h : l ≠ []) : (single a l).get? l = some a := by
  induction l with
  | nil => exact absurd rfl h
  | cons name names ih => by_cases hn : names = [] <;> simp [single, get?, hn, ih]

theorem get?_single_of_ne (a : α) {l m : List Text} (h : m ≠ l) : (single a l).get? m = none := by
  induction l generalizing m with
  | nil => rfl
  | cons name names ih => cases m <;> grind [single, get?]

theorem get?_put_self (t : NameTree α) {l : List Text} (a : α) (h : l ≠ []) :
    (t.put a l).get? l = some a := by
  fun_induction put a t l with
  | case1 l => exact get?_single_self a h
  | case2 => exact absurd rfl h
  | case3 => simp [get?]
  | case4 _ _ _ _ _ hn ih => simp [get?, hn, ih]
  | case5 _ _ _ _ _ _ hn ih => simp [get?, hn, ih]

theorem get?_put_of_ne (t : NameTree α) {l m : List Text} (a : α) (h : m ≠ l) :
    (t.put a l).get? m = t.get? m := by
  fun_induction put a t l generalizing m with
  | case1 l => exact get?_single_of_ne a h
  | case2 => rfl
  | case3 => cases m <;> grind [get?]
  | case4 => cases m <;> grind [get?]
  | case5 => cases m <;> grind [get?]

theorem put_eq_self {t : NameTree α} {l : List Text} {a : α} (h : t.get? l = some a) :
    t.put a l = t := by
  fun_induction get? t l with grind [put]

end NameTree

end SchemaModels.Tool
