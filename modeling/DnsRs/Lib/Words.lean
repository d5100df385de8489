import Mathlib.Tactic

/-!
# Words of a text

The words of a list are its longest parts without a separator. Two lists that meet
at a separator keep their words (`words_append_of_getLast`, `words_append_of_head`),
and separators at the ends of a list make no difference.
-/

namespace DnsRs.Lib

variable {α : Type}

/-- The parts of `text` between the elements that satisfy `p`, without the empty
ones. -/
def words (p : α → Bool) (text : List α) : List (List α) :=
  (text.splitOnP p).filter fun word => !word.isEmpty

/-- The parts stand in the text one after the other. -/
theorem flatten_splitOnP_sublist (p : α → Bool) (text : List α) :
    (text.splitOnP p).flatten.Sublist text := by
  induction text with
  | nil => simp
  | cons c text ih =>
    rw [List.splitOnP_cons_eq_if_modifyHead]
    split
    · rw [List.flatten_cons, List.nil_append]
      exact ih.cons c
    · -- the first part of the rest gets one element more
      cases hParts : text.splitOnP p with
      | nil => exact absurd hParts (List.splitOnP_ne_nil p text)
      | cons part parts =>
        rw [hParts] at ih
        exact ih.cons_cons c

theorem flatten_words_sublist (p : α → Bool) (text : List α) :
    (words p text).flatten.Sublist text := by
  rw [words, List.flatten_filter_not_isEmpty]
  exact flatten_splitOnP_sublist p text

variable {p : α → Bool}

@[simp] theorem words_nil : words p [] = [] := by
  simp [words]

theorem words_append_cons {c : α} (hc : p c = true) (a b : List α) :
    words p (a ++ c :: b) = words p a ++ words p b := by
  rw [words, List.splitOnP_append_cons a b hc, List.filter_append]
  rfl

theorem words_of_forall_not {word : List α} (hne : word ≠ []) (h : ∀ c ∈ word, p c = false) :
    words p word = [word] := by
  rw [words, List.splitOnP_eq_singleton h]
  simp [hne]

theorem words_append_of_getLast {a : List α} (h : ∀ c ∈ a.getLast?, p c = true) (b : List α) :
    words p (a ++ b) = words p a ++ words p b := by
  rcases List.eq_nil_or_concat' a with rfl | ⟨a, c, rfl⟩
  · simp
  · have hc : p c = true := h c (by simp)
    rw [List.append_assoc, List.singleton_append, words_append_cons hc, words_append_cons hc,
      words_nil, List.append_nil]

theorem words_append_of_head (a : List α) {b : List α} (h : ∀ c ∈ b.head?, p c = true) :
    words p (a ++ b) = words p a ++ words p b := by
  cases b with
  | nil => simp
  | cons c b =>
    have hc : p c = true := h c rfl
    have hRest := words_append_cons hc [] b
    rw [List.nil_append, words_nil, List.nil_append] at hRest
    rw [words_append_cons hc, hRest]

theorem words_of_forall {text : List α} (h : ∀ c ∈ text, p c = true) : words p text = [] := by
  induction text with
  | nil => exact words_nil
  | cons c text ih =>
    have hc := words_append_cons (h c List.mem_cons_self) [] text
    rw [List.nil_append, words_nil, List.nil_append] at hc
    rw [hc, ih fun d hd => h d (List.mem_cons_of_mem c hd)]

/-- Words are not changed by separators in front. -/
theorem words_append_left {a : List α} (h : ∀ c ∈ a, p c = true) (b : List α) :
    words p (a ++ b) = words p b := by
  rw [words_append_of_getLast (fun c hc => h c (List.mem_of_getLast? hc)), words_of_forall h,
    List.nil_append]

/-- Words are not changed by separators behind. -/
theorem words_append_right (a : List α) {b : List α} (h : ∀ c ∈ b, p c = true) :
    words p (a ++ b) = words p a := by
  rw [words_append_of_head a (fun c hc => h c (List.mem_of_mem_head? hc)), words_of_forall h,
    List.append_nil]

end DnsRs.Lib
