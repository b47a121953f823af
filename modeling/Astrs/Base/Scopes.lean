/-
Names that are carried out of nested scopes.

When a scope is dissolved into the one around it, each of its own names gets the host's
name and a separator in front; any other name is carried out as it is.
-/

import Mathlib.Data.List.Basic

namespace Astrs.Base

/-- A scope that is being dissolved: its host's name and its own names. -/
structure Frame (α : Type) where
  host : List α
  names : List (List α)

namespace Scopes

variable {α : Type} (separator : α)

/-- A name seen from outside the hosts it sits under, the outermost first. -/
def qualify (hosts : List (List α)) (name : List α) : List α :=
  hosts.foldr (fun host rest => host ++ separator :: rest) name

@[simp] theorem qualify_nil (name : List α) : qualify separator [] name = name := rfl

@[simp] theorem qualify_cons (host : List α) (hosts : List (List α)) (name : List α) :
    qualify separator (host :: hosts) name = host ++ separator :: qualify separator hosts name := rfl

theorem qualify_append (outer inner : List (List α)) (name : List α) :
    qualify separator (outer ++ inner) name =
      qualify separator outer (qualify separator inner name) := by
  unfold qualify
  rw [List.foldr_append]

theorem qualify_injective (hosts : List (List α)) {left right : List α}
    (same : qualify separator hosts left = qualify separator hosts right) : left = right := by
  induction hosts with
  | nil => exact same
  | cons host hosts ih =>
    exact ih (List.cons.inj (List.append_cancel_left same)).2

theorem length_qualify (hosts : List (List α)) (name : List α) :
    (qualify separator hosts name).length = (qualify separator hosts []).length + name.length := by
  induction hosts with
  | nil => simp
  | cons host hosts ih =>
    rw [qualify_cons,qualify_cons,List.length_append,List.length_append,List.length_cons,
      List.length_cons,ih]
    omega

variable [DecidableEq α]

/-- A name carried out of one scope. -/
def raise (frame : Frame α) (name : List α) : List α :=
  if name ∈ frame.names then frame.host ++ separator :: name else name

/-- A name carried out of scope after scope, the innermost first. -/
def lift (frames : List (Frame α)) (name : List α) : List α :=
  frames.foldl (fun carried frame => raise separator frame carried) name

/-- The hosts of a chain of scopes, the outermost first. -/
def hosts (frames : List (Frame α)) : List (List α) := (frames.map Frame.host).reverse

/-- What a scope names is also named, under its host, by the scope around it. -/
def Nested : List (Frame α) → Prop
  | [] => True
  | [_] => True
  | inner :: outer :: rest =>
    (∀ name ∈ inner.names, inner.host ++ separator :: name ∈ outer.names) ∧ Nested (outer :: rest)

theorem lift_cons (frame : Frame α) (frames : List (Frame α)) (name : List α) :
    lift separator (frame :: frames) name = lift separator frames (raise separator frame name) := rfl

omit [DecidableEq α] in
theorem qualify_hosts_cons (frame : Frame α) (frames : List (Frame α)) (name : List α) :
    qualify separator (hosts (frame :: frames)) name =
      qualify separator (hosts frames) (frame.host ++ separator :: name) := by
  unfold hosts
  rw [List.map_cons,List.reverse_cons,qualify_append]
  rfl

variable {frame : Frame α} {name : List α}

theorem lift_of_not_mem (frames : List (Frame α)) (absent : name ∉ frame.names) :
    lift separator (frame :: frames) name = lift separator frames name := by
  rw [lift_cons,raise,if_neg absent]

/-- A name of the innermost scope gets every host in front. -/
theorem lift_of_mem {frames : List (Frame α)}
    (nested : Nested separator (frame :: frames)) (present : name ∈ frame.names) :
    lift separator (frame :: frames) name = qualify separator (hosts (frame :: frames)) name := by
  rw [qualify_hosts_cons,lift_cons,raise,if_pos present]
  induction frames generalizing frame name with
  | nil => rfl
  | cons outer rest ih =>
    have passed := nested.1 name present
    rw [lift_cons,raise,if_pos passed,qualify_hosts_cons]
    exact ih nested.2 passed

/-- A carried name is never longer than with every host in front. -/
theorem length_lift_le (frames : List (Frame α)) (name : List α) :
    (lift separator frames name).length ≤ (qualify separator (hosts frames) name).length := by
  induction frames generalizing name with
  | nil => exact Nat.le_refl _
  | cons frame frames ih =>
    rw [qualify_hosts_cons,lift_cons]
    refine Nat.le_trans (ih _) ?_
    rw [length_qualify,length_qualify separator _ (frame.host ++ separator :: name)]
    unfold raise
    split
    · exact Nat.le_refl _
    · rw [List.length_append,List.length_cons]
      omega

end Scopes

end Astrs.Base
