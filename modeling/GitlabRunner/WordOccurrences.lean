import Mathlib.Data.List.Infix

/-!
# Occurrences that begin inside a stretch of text

A scanner that has already released some text must know whether a word starts in the
released part, even when the word only ends in text that follows.  `BeginsIn word text
after` says exactly this.
-/

namespace GitlabRunner

open List

section

variable {α : Type*} {word text after : List α}

/-- An occurrence of `word` in `text ++ after` that begins inside `text`. -/
def BeginsIn (word text after : List α) : Prop :=
  ∃ before rest, text = before ++ rest ∧ rest ≠ [] ∧ word <+: rest ++ after

theorem beginsIn_iff_exists_drop :
    BeginsIn word text after ↔
      ∃ index < text.length, word <+: text.drop index ++ after := by
  constructor
  · rintro ⟨before, rest, split, nonempty, occurs⟩
    have restLength : 0 < rest.length := length_pos_of_ne_nil nonempty
    refine ⟨before.length, by simp [split, restLength], ?_⟩
    simpa [split] using occurs
  · rintro ⟨index, inside, occurs⟩
    refine ⟨text.take index, text.drop index, (take_append_drop index text).symm, ?_, occurs⟩
    intro empty
    have := drop_eq_nil_iff.mp empty
    omega

instance decidableBeginsIn [DecidableEq α] (word text after : List α) :
    Decidable (BeginsIn word text after) :=
  decidable_of_iff _ beginsIn_iff_exists_drop.symm

theorem not_beginsIn_nil : ¬ BeginsIn word [] after := by
  rintro ⟨before, rest, split, nonempty, _⟩
  exact nonempty (append_eq_nil_iff.mp split.symm).2

/-- An occurrence that begins in a concatenation begins in one of its parts. -/
theorem beginsIn_append_iff {first second : List α} :
    BeginsIn word (first ++ second) after ↔
      BeginsIn word first (second ++ after) ∨ BeginsIn word second after := by
  constructor
  · rintro ⟨before, rest, split, nonempty, occurs⟩
    rcases append_eq_append_iff.mp split with
      ⟨middle, beforeEq, secondEq⟩ | ⟨middle, firstEq, restEq⟩
    · exact .inr ⟨middle, rest, secondEq, nonempty, occurs⟩
    · by_cases empty : middle = []
      · subst empty
        exact .inr ⟨[], rest, by simpa using restEq.symm, nonempty, occurs⟩
      · refine .inl ⟨before, middle, firstEq, empty, ?_⟩
        simpa [restEq] using occurs
  · rintro (⟨before, rest, split, nonempty, occurs⟩ | ⟨before, rest, split, nonempty, occurs⟩)
    · refine ⟨before, rest ++ second, by simp [split], by simp [nonempty], ?_⟩
      simpa using occurs
    · exact ⟨first ++ before, rest, by simp [split], nonempty, occurs⟩

theorem BeginsIn.append_after (occurrence : BeginsIn word text after)
    (more : List α) : BeginsIn word text (after ++ more) := by
  obtain ⟨before, rest, split, nonempty, occurs⟩ := occurrence
  refine ⟨before, rest, split, nonempty, ?_⟩
  rw [← append_assoc]
  exact occurs.trans (prefix_append _ _)

theorem beginsIn_of_occurs (nonempty : word ≠ []) (inside : word <:+: text) :
    BeginsIn word text [] := by
  obtain ⟨before, behind, split⟩ := inside
  refine ⟨before, word ++ behind, by simp [← split], by simp [nonempty], ?_⟩
  simp

theorem BeginsIn.occurs (occurrence : BeginsIn word text []) : word <:+: text := by
  obtain ⟨before, rest, split, _, occurs⟩ := occurrence
  rw [append_nil] at occurs
  rw [split]
  exact occurs.isInfix.trans (suffix_append _ _).isInfix

theorem beginsIn_of_map {β : Type*} (rename : α → β) (injective : Function.Injective rename)
    (occurrence : BeginsIn (word.map rename) (text.map rename) (after.map rename)) :
    BeginsIn word text after := by
  obtain ⟨before, rest, split, nonempty, tail, occurs⟩ := occurrence
  obtain ⟨before', rest', textEq, _, restEq⟩ := map_eq_append_iff.mp split
  subst restEq
  rw [← map_append] at occurs
  obtain ⟨word', tail', restAfterEq, wordEq, _⟩ :=
    map_eq_append_iff.mp occurs.symm
  refine ⟨before', rest', textEq, by simpa using nonempty, tail', ?_⟩
  rw [restAfterEq, injective.list_map wordEq]

/-- A prefix that avoids a letter ends before the first occurrence of the
letter. -/
theorem prefix_of_head_not_mem {first second : List α} {head : α}
    (occurs : word <+: first ++ head :: second) (avoided : head ∉ word) : word <+: first := by
  obtain ⟨tail, split⟩ := occurs
  rcases append_eq_append_iff.mp split with
    ⟨middle, firstEq, _⟩ | ⟨middle, wordEq, restEq⟩
  · exact ⟨middle, firstEq.symm⟩
  · cases middle with
    | nil => exact ⟨[], by simpa using wordEq⟩
    | cons letter middle =>
      simp only [cons_append, List.cons.injEq] at restEq
      exact (avoided (by simp [wordEq, restEq.1])).elim

/-- Text whose letters the word avoids is a barrier: an occurrence that begins
before or inside it ends before it. -/
theorem BeginsIn.before_barrier {barrier : List α} (nonempty : word ≠ [])
    (avoided : ∀ letter ∈ barrier, letter ∉ word) (closes : barrier ≠ [])
    (occurrence : BeginsIn word (text ++ barrier) after) : BeginsIn word text [] := by
  rcases beginsIn_append_iff.mp occurrence with
    ⟨before, rest, split, restNonempty, occurs⟩ |
    ⟨before, rest, split, restNonempty, occurs⟩
  · cases barrier with
    | nil => exact (closes rfl).elim
    | cons letter barrier =>
      refine ⟨before, rest, split, restNonempty, ?_⟩
      rw [append_nil]
      exact prefix_of_head_not_mem (by simpa using occurs) (avoided letter (by simp))
  · cases rest with
    | nil => exact (restNonempty rfl).elim
    | cons letter rest =>
      have inside : letter ∈ word := by
        obtain ⟨tail, occursEq⟩ := occurs
        cases word with
        | nil => exact (nonempty rfl).elim
        | cons wordHead word =>
          simp only [cons_append, List.cons.injEq] at occursEq
          simp [occursEq.1]
      exact (avoided letter (by simp [split]) inside).elim

end

end GitlabRunner
