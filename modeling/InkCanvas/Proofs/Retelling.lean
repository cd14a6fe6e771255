import Mathlib.Data.List.Forall2

/-! # Retellings

A listener hears one input after another and answers each. There are inputs that it does not tell apart,
and inputs that it overlooks in the state that it is in. Two lists of inputs that differ in nothing else
leave it in the same state (`Listener.Retells.after_eq`), and it answers the same to what it does not
overlook (`Listener.Retells.heard_eq`). -/

namespace InkCanvas

/-- What answers one input after another, and takes no notice of some differences between them. -/
structure Listener (σ ι ο : Type) where
  /-- The state after an input, and the answer. -/
  hear : σ → ι → σ × ο
  /-- The second input is not told apart from the first. -/
  Alike : ι → ι → Prop
  /-- The input changes nothing in this state. -/
  overlooks : σ → ι → Bool
  hear_congr {i j : ι} (h : Alike i j) (s : σ) : hear s j = hear s i
  overlooks_congr {i j : ι} (h : Alike i j) (s : σ) : overlooks s j = overlooks s i
  hear_of_overlooks {s : σ} {i : ι} (h : overlooks s i = true) : (hear s i).1 = s

namespace Listener

variable {σ ι ο : Type} (l : Listener σ ι ο)

/-- The state after a list of inputs. -/
def after (s : σ) (inputs : List ι) : σ := inputs.foldl (fun s i => (l.hear s i).1) s

/-- The answers to a list of inputs, one for each. -/
def answers (s : σ) : List ι → List ο
  | [] => []
  | i :: rest => (l.hear s i).2 :: answers (l.hear s i).1 rest

/-- The answers to the inputs of a list that are not overlooked. -/
def heard (s : σ) : List ι → List ο
  | [] => []
  | i :: rest =>
    if l.overlooks s i then
      heard (l.hear s i).1 rest
    else
      (l.hear s i).2 :: heard (l.hear s i).1 rest

/-- From this state on, the second list tells the same as the first: either may have inputs more that are
overlooked when they come, and otherwise the inputs are pairwise not told apart. -/
inductive Retells : σ → List ι → List ι → Prop where
  | nil (s : σ) : Retells s [] []
  | alike {s : σ} {i j : ι} {is js : List ι} (alike : l.Alike i j)
      (rest : Retells (l.hear s i).1 is js) : Retells s (i :: is) (j :: js)
  | left {s : σ} {i : ι} {is js : List ι} (overlooked : l.overlooks s i = true)
      (rest : Retells s is js) : Retells s (i :: is) js
  | right {s : σ} {j : ι} {is js : List ι} (overlooked : l.overlooks s j = true)
      (rest : Retells s is js) : Retells s is (j :: js)

variable {l} {s : σ} {is js : List ι}

theorem heard_cons_of_overlooks {i : ι} (h : l.overlooks s i = true) :
    l.heard s (i :: is) = l.heard s is := by
  rw [heard, if_pos h, l.hear_of_overlooks h]

theorem after_cons_of_overlooks {i : ι} (h : l.overlooks s i = true) :
    l.after s (i :: is) = l.after s is := by
  rw [after, List.foldl_cons, l.hear_of_overlooks h]
  rfl

theorem Retells.after_eq (h : l.Retells s is js) : l.after s js = l.after s is := by
  induction h with
  | nil => rfl
  | @alike s i j is js halike _ ih =>
    rw [after, List.foldl_cons, l.hear_congr halike]
    exact ih
  | left hover _ ih => rw [after_cons_of_overlooks hover, ih]
  | right hover _ ih => rw [after_cons_of_overlooks hover, ih]

theorem Retells.heard_eq (h : l.Retells s is js) : l.heard s js = l.heard s is := by
  induction h with
  | nil => rfl
  | alike halike _ ih =>
    rw [heard, heard, l.hear_congr halike, l.overlooks_congr halike, ih]
  | left hover _ ih => rw [heard_cons_of_overlooks hover, ih]
  | right hover _ ih => rw [heard_cons_of_overlooks hover, ih]

theorem Retells.of_forall₂ (h : List.Forall₂ l.Alike is js) : l.Retells s is js := by
  induction h generalizing s with
  | nil => exact .nil s
  | cons halike _ ih => exact .alike halike ih

/-- Without inputs more, also what is overlooked is answered the same. -/
theorem answers_eq_of_forall₂ (h : List.Forall₂ l.Alike is js) :
    l.answers s js = l.answers s is := by
  induction h generalizing s with
  | nil => rfl
  | cons halike _ ih => rw [answers, answers, l.hear_congr halike, ih]

end Listener
end InkCanvas
