import Mathlib.Data.List.Forall2

/-!
# Regular expressions

Regular expressions over an arbitrary alphabet.  `ways` lists the ways to match the
beginning of a text in the order in which a backtracking matcher tries them, which is the
order of the leftmost-first rule.
-/

namespace GitlabRunner.Regexes

open List

inductive Regex (Letter : Type) where
  | empty
  | one (accepts : Letter → Bool)
  | seq (first second : Regex Letter)
  | alt (first second : Regex Letter)
  | star (greedy : Bool) (body : Regex Letter)

variable {Letter : Type}

namespace Regex

def opt (body : Regex Letter) : Regex Letter :=
  .alt body .empty

def plus (body : Regex Letter) : Regex Letter :=
  .seq body (.star true body)

def letters : List (Letter → Bool) → Regex Letter
  | [] => .empty
  | accepts :: rest => .seq (.one accepts) (letters rest)

end Regex

def andThen (ways : List Letter → List (List Letter × List Letter))
    (way : List Letter × List Letter) : List (List Letter × List Letter) :=
  (ways way.2).map fun next => (way.1 ++ next.1, next.2)

def starWays (body : List Letter → List (List Letter × List Letter)) (greedy : Bool) :
    Nat → List Letter → List (List Letter × List Letter)
  | 0, text => [([], text)]
  | fuel + 1, text =>
    let more := ((body text).filter fun way => !way.1.isEmpty).flatMap
      (andThen (starWays body greedy fuel))
    if greedy then more ++ [([], text)] else ([], text) :: more

/-- The ways to match the beginning of a text: what is read of it, and what is left. -/
def ways : Regex Letter → List Letter → List (List Letter × List Letter)
  | .empty, text => [([], text)]
  | .one _, [] => []
  | .one accepts, letter :: text => if accepts letter then [([letter], text)] else []
  | .seq first second, text => (ways first text).flatMap (andThen (ways second))
  | .alt first second, text => ways first text ++ ways second text
  | .star greedy body, text => starWays (ways body) greedy text.length text

inductive Matches : Regex Letter → List Letter → Prop where
  | empty : Matches .empty []
  | one {accepts letter} (accepted : accepts letter = true) : Matches (.one accepts) [letter]
  | seq {first second used more} (reads : Matches first used) (continues : Matches second more) :
      Matches (.seq first second) (used ++ more)
  | left {first second used} (reads : Matches first used) : Matches (.alt first second) used
  | right {first second used} (reads : Matches second used) : Matches (.alt first second) used
  | stop {greedy body} : Matches (.star greedy body) []
  | more {greedy body used rest} (nonempty : used ≠ []) (reads : Matches body used)
      (continues : Matches (.star greedy body) rest) : Matches (.star greedy body) (used ++ rest)

section Inversion

variable {first second body : Regex Letter} {text : List Letter} {greedy : Bool}
  {accepts : Letter → Bool}

theorem matches_empty_iff : Matches (.empty : Regex Letter) text ↔ text = [] := by
  constructor
  · rintro ⟨⟩
    rfl
  · rintro rfl
    exact .empty

theorem matches_one_iff :
    Matches (.one accepts) text ↔ ∃ letter, text = [letter] ∧ accepts letter = true := by
  constructor
  · rintro ⟨⟩
    exact ⟨_, rfl, by assumption⟩
  · rintro ⟨letter, rfl, accepted⟩
    exact .one accepted

theorem matches_seq_iff :
    Matches (.seq first second) text ↔
      ∃ start rest, text = start ++ rest ∧ Matches first start ∧ Matches second rest := by
  constructor
  · rintro ⟨⟩
    exact ⟨_, _, rfl, by assumption, by assumption⟩
  · rintro ⟨start, rest, rfl, reads, continues⟩
    exact .seq reads continues

theorem matches_alt_iff :
    Matches (.alt first second) text ↔ Matches first text ∨ Matches second text := by
  constructor
  · rintro ⟨⟩
    · exact .inl (by assumption)
    · exact .inr (by assumption)
  · rintro (reads | reads)
    · exact .left reads
    · exact .right reads

theorem matches_opt_iff : Matches body.opt text ↔ Matches body text ∨ text = [] := by
  rw [Regex.opt, matches_alt_iff, matches_empty_iff]

theorem matches_star_iff :
    Matches (.star greedy body) text ↔ text = [] ∨
      ∃ start rest, start ≠ [] ∧ text = start ++ rest ∧ Matches body start ∧
        Matches (.star greedy body) rest := by
  constructor
  · intro matched
    cases matched with
    | stop => exact .inl rfl
    | more nonempty reads continues => exact .inr ⟨_, _, nonempty, rfl, reads, continues⟩
  · rintro (rfl | ⟨start, rest, nonempty, rfl, reads, continues⟩)
    · exact .stop
    · exact .more nonempty reads continues

/-- What holds of no text and goes on with every iteration holds of a star. -/
theorem Matches.star_induction {property : List Letter → Prop} (none : property [])
    (more : ∀ start rest, Matches body start → property rest → property (start ++ rest))
    (matched : Matches (.star greedy body) text) : property text := by
  induction length : text.length using Nat.strongRecOn generalizing text with
  | _ bound ih =>
    rcases matches_star_iff.mp matched with rfl | ⟨start, rest, nonempty, rfl, reads, continues⟩
    · exact none
    · have positive := length_pos_iff.mpr nonempty
      rw [length_append] at length
      exact more start rest reads (ih rest.length (by omega) continues rfl)

theorem matches_star_one_iff :
    Matches (.star greedy (.one accepts)) text ↔ ∀ letter ∈ text, accepts letter = true := by
  constructor
  · apply Matches.star_induction
    · simp
    · intro start rest reads ih
      obtain ⟨letter, rfl, accepted⟩ := matches_one_iff.mp reads
      simpa [accepted] using ih
  · intro all
    induction text with
    | nil => exact .stop
    | cons letter rest ih =>
      obtain ⟨accepted, later⟩ := forall_mem_cons.mp all
      exact .more (cons_ne_nil _ _) (.one accepted) (ih later)

theorem matches_plus_one_iff :
    Matches (.plus (.one accepts)) text ↔ text ≠ [] ∧ ∀ letter ∈ text, accepts letter = true := by
  simp only [Regex.plus, matches_seq_iff, matches_one_iff, matches_star_one_iff]
  constructor
  · rintro ⟨_, rest, rfl, ⟨letter, rfl, accepted⟩, all⟩
    simpa [accepted] using all
  · rintro ⟨nonempty, all⟩
    obtain ⟨letter, rest, rfl⟩ := exists_cons_of_ne_nil nonempty
    obtain ⟨accepted, later⟩ := forall_mem_cons.mp all
    exact ⟨[letter], rest, rfl, ⟨letter, rfl, accepted⟩, later⟩

theorem matches_letters_iff {classes : List (Letter → Bool)} :
    Matches (.letters classes) text ↔
      List.Forall₂ (fun accepts letter => accepts letter = true) classes text := by
  induction classes generalizing text with
  | nil => simp [Regex.letters, matches_empty_iff, forall₂_nil_left_iff]
  | cons accepts classes ih =>
    simp only [Regex.letters, matches_seq_iff, matches_one_iff, ih]
    constructor
    · rintro ⟨_, rest, rfl, ⟨letter, rfl, accepted⟩, later⟩
      exact .cons accepted later
    · intro all
      obtain ⟨letter, rest, accepted, later, rfl⟩ := forall₂_cons_left_iff.mp all
      exact ⟨[letter], rest, rfl, ⟨letter, rfl, accepted⟩, later⟩

end Inversion

theorem mem_andThen {ways : List Letter → List (List Letter × List Letter)}
    {way last : List Letter × List Letter} :
    last ∈ andThen ways way ↔ ∃ used, (used, last.2) ∈ ways way.2 ∧ last.1 = way.1 ++ used := by
  constructor
  · intro member
    obtain ⟨next, isNext, rfl⟩ := mem_map.mp member
    exact ⟨next.1, isNext, rfl⟩
  · rintro ⟨used, isNext, same⟩
    exact mem_map.mpr ⟨_, isNext, Prod.ext same.symm rfl⟩

theorem mem_starWays_succ {body : List Letter → List (List Letter × List Letter)} {greedy : Bool}
    {fuel : Nat} {text : List Letter} {way : List Letter × List Letter} :
    way ∈ starWays body greedy (fuel + 1) text ↔ way = ([], text) ∨
      ∃ next ∈ body text, next.1 ≠ [] ∧ way ∈ andThen (starWays body greedy fuel) next := by
  cases greedy <;> simp [starWays, and_assoc, or_comm]

/-- The ways of a star are the readings of its iterations. -/
theorem mem_starWays {body : Regex Letter} {greedy : Bool}
    (spec : ∀ text way, way ∈ ways body text ↔ text = way.1 ++ way.2 ∧ Matches body way.1)
    (fuel : Nat) (text : List Letter) (way : List Letter × List Letter)
    (enough : text.length ≤ fuel) :
    way ∈ starWays (ways body) greedy fuel text ↔
      text = way.1 ++ way.2 ∧ Matches (.star greedy body) way.1 := by
  obtain ⟨used, left⟩ := way
  induction fuel generalizing text used with
  | zero =>
    obtain rfl := length_eq_zero_iff.mp (Nat.le_zero.mp enough)
    simp only [starWays, mem_singleton, Prod.mk.injEq, nil_eq, append_eq_nil_iff]
    constructor
    · rintro ⟨rfl, rfl⟩
      exact ⟨⟨rfl, rfl⟩, .stop⟩
    · exact fun both => both.1
  | succ fuel ih =>
    simp only [mem_starWays_succ, mem_andThen]
    constructor
    · rintro (same | ⟨⟨start, rest⟩, isWay, nonempty, more, later, rfl⟩)
      · cases same
        exact ⟨rfl, .stop⟩
      · obtain ⟨rfl, reads⟩ := (spec _ _).mp isWay
        have positive := length_pos_iff.mpr nonempty
        rw [length_append] at enough
        dsimp only at enough positive later ⊢
        obtain ⟨rfl, continues⟩ := (ih rest (by omega) more).mp later
        exact ⟨(append_assoc _ _ _).symm, .more nonempty reads continues⟩
    · rintro ⟨rfl, matched⟩
      rcases matches_star_iff.mp matched with same | ⟨start, rest, nonempty, same, reads, continues⟩
      · obtain rfl : used = [] := same
        exact .inl rfl
      · obtain rfl : used = start ++ rest := same
        have positive := length_pos_iff.mpr nonempty
        simp only [append_assoc, length_append] at enough ⊢
        refine .inr ⟨(start, rest ++ left), (spec _ _).mpr ⟨rfl, reads⟩, nonempty, rest, ?_, rfl⟩
        have shorter : (rest ++ left).length ≤ fuel := by
          rw [length_append]
          omega
        exact (ih (rest ++ left) shorter rest).mpr ⟨rfl, continues⟩

/-- The ways list exactly the readings of an expression. -/
theorem mem_ways (regex : Regex Letter) (text : List Letter) (way : List Letter × List Letter) :
    way ∈ ways regex text ↔ text = way.1 ++ way.2 ∧ Matches regex way.1 := by
  obtain ⟨used, left⟩ := way
  induction regex generalizing text used left with
  | empty =>
    simp only [ways, mem_singleton, Prod.mk.injEq, matches_empty_iff]
    constructor
    · rintro ⟨rfl, rfl⟩
      exact ⟨rfl, rfl⟩
    · rintro ⟨rfl, rfl⟩
      exact ⟨rfl, rfl⟩
  | one accepts =>
    cases text with
    | nil =>
      simp only [ways, not_mem_nil, matches_one_iff, false_iff]
      rintro ⟨empty, letter, rfl, -⟩
      cases empty
    | cons letter text =>
      rw [ways]
      constructor
      · intro member
        split at member
        · rename_i accepted
          cases mem_singleton.mp member
          exact ⟨rfl, .one accepted⟩
        · cases member
      · rintro ⟨split, matched⟩
        obtain ⟨_, same, accepted⟩ := matches_one_iff.mp matched
        obtain rfl : used = _ := same
        cases split
        rw [if_pos accepted]
        exact mem_cons_self
  | seq first second ihFirst ihSecond =>
    simp only [ways, mem_flatMap, mem_andThen, Prod.exists, ihFirst, ihSecond,
      matches_seq_iff]
    constructor
    · rintro ⟨start, rest, ⟨rfl, reads⟩, more, ⟨rfl, continues⟩, rfl⟩
      exact ⟨(append_assoc _ _ _).symm, start, more, rfl, reads, continues⟩
    · rintro ⟨rfl, start, rest, rfl, reads, continues⟩
      exact ⟨start, rest ++ left, ⟨append_assoc _ _ _, reads⟩, rest, ⟨rfl, continues⟩, rfl⟩
  | alt first second ihFirst ihSecond =>
    simp only [ways, mem_append, ihFirst, ihSecond, matches_alt_iff, and_or_left]
  | star greedy body ih =>
    exact mem_starWays (fun text way => ih text way.1 way.2) _ _ _ (Nat.le_refl _)

end GitlabRunner.Regexes
