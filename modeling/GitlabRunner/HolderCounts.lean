import Mathlib.Data.List.Nodup

/-!
# Counters and their holders

A counter for each key is exact if it equals the number of holders of the key.
Counting a holder that enters and a holder that leaves keeps it exact.
-/

namespace GitlabRunner.HolderCounts

open List

variable {Holder Key : Type} [DecidableEq Key]

/-- Every counter equals the number of holders of its key, and every holder holds
one key once. -/
structure Exact (count : Key → Nat) (holders : List (Holder × Key)) : Prop where
  counts : ∀ key, count key = holders.countP fun entry => entry.2 = key
  once : (holders.map Prod.fst).Nodup

variable {count later : Key → Nat} {holders : List (Holder × Key)} {holder : Holder}
  {key : Key}

theorem Exact.empty : Exact (fun _ : Key => 0) ([] : List (Holder × Key)) :=
  ⟨fun _ => rfl, nodup_nil⟩

section

variable (exact : Exact count holders)

include exact

theorem Exact.congr (same : ∀ key, later key = count key) : Exact later holders :=
  ⟨fun key => (same key).trans (exact.counts key), exact.once⟩

theorem Exact.enter (new : ∀ other, (holder, other) ∉ holders)
    (counted : later key = count key + 1) (others : ∀ other, other ≠ key →
      later other = count other) : Exact later ((holder, key) :: holders) := by
  refine ⟨?_, ?_⟩
  · intro other
    rw [countP_cons]
    by_cases same : key = other
    · subst same
      simp [counted, exact.counts]
    · rw [others other (Ne.symm same), exact.counts]
      simp [same]
  · refine nodup_cons.mpr ⟨?_, exact.once⟩
    intro member
    obtain ⟨⟨first, second⟩, isHolder, rfl⟩ := mem_map.mp member
    exact new second isHolder

theorem Exact.pos (member : (holder, key) ∈ holders) : 0 < count key := by
  rw [exact.counts, countP_pos_iff]
  exact ⟨(holder, key), member, by simp⟩

variable [DecidableEq Holder]

theorem Exact.leave (member : (holder, key) ∈ holders)
    (counted : later key = count key - 1) (others : ∀ other, other ≠ key →
      later other = count other) : Exact later (holders.erase (holder, key)) := by
  refine ⟨?_, exact.once.sublist (erase_sublist.map Prod.fst)⟩
  intro other
  have before : count other = (holders.erase (holder, key)).countP (fun entry => entry.2 = other) +
      if key = other then 1 else 0 := by
    rw [exact.counts, (perm_cons_erase member).countP_eq, countP_cons]
    simp
  by_cases same : key = other
  · subst same
    rw [counted, before, if_pos rfl, Nat.add_sub_cancel]
  · rw [others other (Ne.symm same), before, if_neg same, Nat.add_zero]

theorem Exact.mem_erase (member : (holder, key) ∈ holders) (someone : Holder) (something : Key) :
    (someone, something) ∈ holders.erase (holder, key) ↔
      (someone, something) ∈ holders ∧ someone ≠ holder := by
  have distinct : holders.Nodup := exact.once.of_map
  rw [distinct.mem_erase_iff]
  constructor
  · rintro ⟨different, isHolder⟩
    refine ⟨isHolder, ?_⟩
    rintro rfl
    exact different (inj_on_of_nodup_map exact.once isHolder member rfl)
  · rintro ⟨isHolder, other⟩
    exact ⟨fun same => other (Prod.mk.inj same).1, isHolder⟩

end

end GitlabRunner.HolderCounts
