import Mathlib.Data.List.Induction

/-!
Texts that are continued one token at a time, each token chosen from all that stands before it.
-/

namespace Continuation

variable {Token : Type}

def Continues (follows : List Token → Token → Prop) (context response : List Token) : Prop :=
  ∀ i token, response[i]? = some token → follows (context ++ response.take i) token

def continuation (choose : List Token → Token) (context : List Token) : Nat → List Token
  | 0 => []
  | count + 1 =>
    let before := continuation choose context count
    before ++ [choose (context ++ before)]

variable {follows : List Token → Token → Prop} {context response : List Token}

theorem Continues.nil : Continues follows context [] := by
  intro i token found
  simp at found

theorem continues_append_singleton {token : Token} :
    Continues follows context (response ++ [token]) ↔
      Continues follows context response ∧ follows (context ++ response) token := by
  constructor
  · intro continues
    constructor
    · intro i other found
      obtain ⟨bound, _⟩ := List.getElem?_eq_some_iff.mp found
      have early := continues i other (by rw [List.getElem?_append_left bound, found])
      rwa [List.take_append_of_le_length (Nat.le_of_lt bound)] at early
    · have last := continues response.length token (by simp)
      rwa [List.take_left] at last
  · rintro ⟨continues, last⟩ i other found
    by_cases early : i < response.length
    · rw [List.getElem?_append_left early] at found
      rw [List.take_append_of_le_length (Nat.le_of_lt early)]
      exact continues i other found
    · have bound := (List.getElem?_eq_some_iff.mp found).1
      have final : i = response.length := by
        simp only [List.length_append, List.length_singleton] at bound
        omega
      subst i
      simp only [List.getElem?_concat_length, Option.some.injEq] at found
      subst other
      rwa [List.take_left]

theorem Continues.imp {weaker : List Token → Token → Prop}
    (implies : ∀ before token, follows before token → weaker before token)
    (continues : Continues follows context response) : Continues weaker context response :=
  fun i token found => implies _ _ (continues i token found)

theorem eq_continuation (choose : List Token → Token)
    (continues : Continues (fun before token => token = choose before) context response) :
    response = continuation choose context response.length := by
  induction response using List.reverseRecOn with
  | nil => rfl
  | append_singleton early last ih =>
      obtain ⟨before, chosen⟩ := continues_append_singleton.mp continues
      rw [List.length_append, List.length_singleton, continuation, ← ih before, ← chosen]

end Continuation
