import Mathlib.Data.List.Pairwise

/-!
# Caches and states by key

A cache makes a value for a request unless it holds one under the key of the request.  The
values are shared by reference: a call answers with the position of the value.  In a map of
states by key, an event moves the state of its own key alone.
-/

namespace GitlabRunner.KeyedCaches

open List Function

variable {Request Key Value Error : Type} [DecidableEq Key]

/-- The positions of the values by key, and the values that were made. -/
structure Cache (Key Value : Type) where
  entries : Key → Option Nat
  values : List Value

def Cache.empty : Cache Key Value :=
  ⟨fun _ => none, []⟩

def Cache.store (cache : Cache Key Value) (key : Key) (value : Value) : Cache Key Value where
  entries := update cache.entries key (some cache.values.length)
  values := cache.values ++ [value]

section Calls

variable (key : Request → Key) (make : Request → Except Error Value)

def Cache.get (cache : Cache Key Value) (request : Request) :
    Except Error Nat × Cache Key Value :=
  match cache.entries (key request) with
  | some position => (.ok position, cache)
  | none =>
    match make request with
    | .ok value => (.ok cache.values.length, cache.store (key request) value)
    | .error error => (.error error, cache)

def Cache.answers (cache : Cache Key Value) : List Request → List (Request × Except Error Nat)
  | [] => []
  | request :: rest =>
    (request, (cache.get key make request).1) :: (cache.get key make request).2.answers rest

def Cache.after (cache : Cache Key Value) : List Request → Cache Key Value
  | [] => cache
  | request :: rest => (cache.get key make request).2.after rest

def Makes (request : Request) : Prop :=
  ∃ value, make request = .ok value

/-- Whoever shares a key with an earlier request for which a value is made is the same. -/
def SameKeysOnly (same : Request → Request → Prop) (requests : List Request) : Prop :=
  requests.Pairwise fun earlier later =>
    key earlier = key later → Makes make earlier → same earlier later

end Calls

section Lemmas

variable {key : Request → Key} {make : Request → Except Error Value} {cache : Cache Key Value}
  {request : Request} {requests : List Request} {position : Nat}

/-- What a call does: a hit, a new value, or an error that changes nothing. -/
theorem get_cases (key : Request → Key) (make : Request → Except Error Value)
    (cache : Cache Key Value) (request : Request) :
    (∃ position, cache.entries (key request) = some position ∧
        cache.get key make request = (.ok position, cache)) ∨
      (∃ value, cache.entries (key request) = none ∧ make request = .ok value ∧
        cache.get key make request = (.ok cache.values.length, cache.store (key request) value)) ∨
      ∃ error, cache.entries (key request) = none ∧ make request = .error error ∧
        cache.get key make request = (.error error, cache) := by
  unfold Cache.get
  cases held : cache.entries (key request) with
  | some position => exact .inl ⟨position, rfl, rfl⟩
  | none =>
    right
    cases made : make request with
    | ok value => exact .inl ⟨value, rfl, rfl, rfl⟩
    | error error => exact .inr ⟨error, rfl, rfl, rfl⟩

variable {value : Value} {found : Key}

theorem entries_store_of_some
    (held : cache.entries found = some position) (missing : cache.entries (key request) = none) :
    (cache.store (key request) value).entries found = some position := by
  have different : found ≠ key request := by
    rintro rfl
    rw [held] at missing
    cases missing
  exact (update_of_ne different _ _).trans held

theorem entries_get (held : cache.entries found = some position) :
    (cache.get key make request).2.entries found = some position := by
  rcases get_cases key make cache request with ⟨_, -, same⟩ | ⟨_, missing, -, same⟩ |
    ⟨_, -, -, same⟩
  · rw [same]
    exact held
  · rw [same]
    exact entries_store_of_some held missing
  · rw [same]
    exact held

theorem entries_after (held : cache.entries found = some position) :
    (cache.after key make requests).entries found = some position := by
  induction requests generalizing cache with
  | nil => exact held
  | cons request rest ih => exact ih (entries_get held)

/-- The key of a request that was answered with a value holds that value at the end. -/
theorem entries_of_answer (answered : (request, .ok position) ∈ cache.answers key make requests) :
    (cache.after key make requests).entries (key request) = some position := by
  induction requests generalizing cache with
  | nil => cases answered
  | cons first rest ih =>
    rcases mem_cons.mp answered with now | later
    · obtain ⟨rfl, isAnswer⟩ := Prod.mk.inj now
      have held : (cache.get key make request).2.entries (key request) = some position := by
        rcases get_cases key make cache request with ⟨found, held, same⟩ | ⟨value, -, -, same⟩ |
          ⟨error, -, -, same⟩
        · rw [same] at isAnswer ⊢
          cases isAnswer
          exact held
        · rw [same] at isAnswer ⊢
          cases isAnswer
          exact update_self _ _ _
        · rw [same] at isAnswer
          cases isAnswer
      exact @entries_after _ _ _ _ _ key make _ rest _ _ held
    · exact ih later

theorem mem_of_answer {answer : Except Error Nat}
    (answered : (request, answer) ∈ cache.answers key make requests) : request ∈ requests := by
  induction requests generalizing cache with
  | nil => cases answered
  | cons first rest ih =>
    rcases mem_cons.mp answered with now | later
    · rw [(Prod.mk.inj now).1]
      exact mem_cons_self
    · exact mem_cons_of_mem _ (ih later)

theorem answer_of_entry (held : cache.entries (key request) = some position)
    (member : request ∈ requests) : (request, .ok position) ∈ cache.answers key make requests := by
  induction requests generalizing cache with
  | nil => cases member
  | cons first rest ih =>
    rcases mem_cons.mp member with rfl | later
    · have hit : (cache.get key make request).1 = .ok position := by rw [Cache.get, held]
      rw [Cache.answers, hit]
      exact mem_cons_self
    · exact mem_cons_of_mem _ (ih (entries_get held) later)

/-- A request for which a value can be made is answered with a value. -/
theorem get_of_makes (makes : Makes make request) :
    ∃ position, (cache.get key make request).1 = .ok position ∧
      (cache.get key make request).2.entries (key request) = some position := by
  rcases get_cases key make cache request with ⟨position, held, same⟩ | ⟨value, -, -, same⟩ |
    ⟨error, -, made, -⟩
  · exact ⟨position, by rw [same], by rw [same]; exact held⟩
  · exact ⟨cache.values.length, by rw [same], by rw [same]; exact update_self _ _ _⟩
  · obtain ⟨value, makesValue⟩ := makes
    rw [made] at makesValue
    cases makesValue

/-- Different keys hold different values, and all of them were made. -/
structure Cache.Sound (cache : Cache Key Value) : Prop where
  bounded : ∀ found position, cache.entries found = some position → position < cache.values.length
  injective : ∀ first second position, cache.entries first = some position →
    cache.entries second = some position → first = second

open Cache

omit [DecidableEq Key] in
theorem sound_empty : (empty : Cache Key Value).Sound where
  bounded := by simp [empty]
  injective := by simp [empty]

theorem Cache.Sound.store (sound : cache.Sound) (found : Key) (value : Value) :
    (cache.store found value).Sound := by
  have fresh (other : Key) (held : cache.entries other = some cache.values.length) : False :=
    Nat.lt_irrefl _ (sound.bounded other _ held)
  constructor
  · intro other position held
    rw [Cache.store, length_append, length_singleton]
    simp only [Cache.store, update_apply] at held
    split at held
    · cases held
      exact Nat.lt_succ_self _
    · exact Nat.lt_succ_of_lt (sound.bounded other position held)
  · intro first second position firstHeld secondHeld
    simp only [Cache.store, update_apply] at firstHeld secondHeld
    split at firstHeld
    · cases firstHeld
      split at secondHeld
      · simp_all
      · exact (fresh second secondHeld).elim
    · split at secondHeld
      · cases secondHeld
        exact (fresh first firstHeld).elim
      · exact sound.injective first second position firstHeld secondHeld

theorem Cache.Sound.get (sound : cache.Sound) : (cache.get key make request).2.Sound := by
  rcases get_cases key make cache request with ⟨_, -, same⟩ | ⟨value, -, -, same⟩ | ⟨_, -, -, same⟩
  · rw [same]
    exact sound
  · rw [same]
    exact sound.store _ _
  · rw [same]
    exact sound

theorem Cache.Sound.after (sound : cache.Sound) : (cache.after key make requests).Sound := by
  induction requests generalizing cache with
  | nil => exact sound
  | cons request rest ih => exact ih sound.get

/-- Each value was made for an earlier request with its key. -/
def Cache.MadeFor (key : Request → Key) (make : Request → Except Error Value)
    (past : List Request) (cache : Cache Key Value) : Prop :=
  ∀ found position, cache.entries found = some position →
    ∃ creator ∈ past, key creator = found ∧
      ∃ value, make creator = .ok value ∧ cache.values[position]? = some value

theorem values_store (found : Key) (added : Value)
    (isValue : cache.values[position]? = some value) :
    (cache.store found added).values[position]? = some value := by
  have inside : position < cache.values.length := (List.getElem?_eq_some_iff.mp isValue).1
  exact (List.getElem?_append_left inside).trans isValue

theorem Cache.MadeFor.get {past : List Request} (made : cache.MadeFor key make past) :
    (cache.get key make request).2.MadeFor key make (past ++ [request]) := by
  have kept : cache.MadeFor key make (past ++ [request]) := by
    intro found position held
    obtain ⟨creator, member, isKey, value⟩ := made found position held
    exact ⟨creator, mem_append_left _ member, isKey, value⟩
  rcases get_cases key make cache request with ⟨_, -, same⟩ | ⟨value, -, makes, same⟩ |
    ⟨_, -, -, same⟩
  · rw [same]
    exact kept
  · rw [same]
    intro found position held
    simp only [store, update_apply] at held ⊢
    split at held
    · case isTrue isKey =>
        cases held
        refine ⟨request, mem_append_right _ (mem_singleton.mpr rfl), isKey.symm, value, makes, ?_⟩
        simp
    · obtain ⟨creator, member, isKey, other, makesOther, isValue⟩ := kept found position held
      exact ⟨creator, member, isKey, other, makesOther, values_store (key request) value isValue⟩
  · rw [same]
    exact kept

theorem values_after (isValue : cache.values[position]? = some value) :
    (cache.after key make requests).values[position]? = some value := by
  induction requests generalizing cache with
  | nil => exact isValue
  | cons request rest ih =>
    apply ih
    rcases get_cases key make cache request with ⟨_, -, same⟩ | ⟨_, -, -, same⟩ | ⟨_, -, -, same⟩
    · rw [same]
      exact isValue
    · rw [same]
      exact values_store _ _ isValue
    · rw [same]
      exact isValue

variable {same : Request → Request → Prop}

/-- If different requests with one key are excluded, every request is answered with a value
that was made for the same request. -/
theorem answer_made (reflexive : ∀ request, same request request) {past : List Request}
    (made : cache.MadeFor key make past) (only : SameKeysOnly key make same (past ++ requests))
    (answered : (request, .ok position) ∈ cache.answers key make requests) :
    ∃ creator value, same creator request ∧ make creator = .ok value ∧
      (cache.after key make requests).values[position]? = some value := by
  induction requests generalizing cache past with
  | nil => cases answered
  | cons first rest ih =>
    rcases mem_cons.mp answered with now | later
    · obtain ⟨rfl, isAnswer⟩ := Prod.mk.inj now
      have held := @entries_of_answer _ _ _ _ _ key make cache request [request] position
        (by rw [answers, isAnswer]; exact mem_cons_self)
      obtain ⟨creator, member, isKey, value, makes, isValue⟩ := made.get _ _ held
      refine ⟨creator, value, ?_, makes, @values_after _ _ _ _ _ key make _ rest _ _ isValue⟩
      rcases mem_append.mp member with earlier | current
      · have apart := (pairwise_append.mp only).2.2 creator earlier request mem_cons_self
        exact apart isKey ⟨value, makes⟩
      · rw [mem_singleton.mp current]
        exact reflexive request
    · have shifted : SameKeysOnly key make same ((past ++ [first]) ++ rest) := by
        rw [append_assoc]
        exact only
      exact ih made.get shifted later

/-- Requests that share no value with different ones have different keys, unless no value
can be made for the earlier one. -/
theorem sameKeysOnly_of_apart
    (apart : ∀ first second position, (first, .ok position) ∈ cache.answers key make requests →
      (second, .ok position) ∈ cache.answers key make requests → same first second) :
    SameKeysOnly key make same requests := by
  induction requests generalizing cache with
  | nil => exact List.Pairwise.nil
  | cons first rest ih =>
    apply List.Pairwise.cons
    · intro later member sameKey makes
      obtain ⟨position, answer, held⟩ := @get_of_makes _ _ _ _ _ key make cache first makes
      apply apart first later position
      · rw [answers, answer]
        exact mem_cons_self
      · rw [sameKey] at held
        exact mem_cons_of_mem _ (answer_of_entry held member)
    · apply ih
      intro earlier later position firstAnswer secondAnswer
      exact apart earlier later position (mem_cons_of_mem _ firstAnswer)
        (mem_cons_of_mem _ secondAnswer)

omit [DecidableEq Key] in
theorem madeFor_empty (key : Request → Key) (make : Request → Except Error Value) :
    (empty : Cache Key Value).MadeFor key make [] := by
  intro found position held
  cases held

/-- If different requests with one key are excluded, different requests share no value. -/
theorem apart_of_sameKeysOnly (equivalence : Equivalence same)
    (agrees : ∀ first second, same first second → Makes make first → Makes make second)
    (only : SameKeysOnly key make same requests) {first second : Request}
    (firstAnswer : (first, .ok position) ∈ empty.answers key make requests)
    (secondAnswer : (second, .ok position) ∈ empty.answers key make requests) :
    same first second := by
  have makes {request : Request}
      (answered : (request, .ok position) ∈ empty.answers key make requests) :
      Makes make request := by
    obtain ⟨creator, value, alike, made, -⟩ := answer_made equivalence.refl
      (madeFor_empty key make) only answered
    exact agrees creator request alike ⟨value, made⟩
  have symmetric : Std.Symm fun first second : Request =>
      key first = key second → Makes make first → Makes make second → same first second := by
    constructor
    intro first second apart sameKey firstMakes secondMakes
    exact equivalence.symm (apart sameKey.symm secondMakes firstMakes)
  have everywhere := @List.Pairwise.forall_of_forall _ _ _ symmetric
    (fun request _ _ _ _ => equivalence.refl request)
    (only.imp fun apart sameKey firstMakes _ => apart sameKey firstMakes)
  exact everywhere (mem_of_answer firstAnswer) (mem_of_answer secondAnswer)
    (sound_empty.after.injective _ _ _ (entries_of_answer firstAnswer)
      (entries_of_answer secondAnswer)) (makes firstAnswer) (makes secondAnswer)

end Lemmas

end GitlabRunner.KeyedCaches

namespace GitlabRunner.KeyedStates

variable {Key Event State : Type} [DecidableEq Key]

section Runs

variable (key : Event → Key) (move : State → Event → State)

def step (states : Key → State) (event : Event) : Key → State :=
  Function.update states (key event) (move (states (key event)) event)

def run (states : Key → State) (events : List Event) : Key → State :=
  events.foldl (step key move) states

end Runs

variable {key : Event → Key} {move : State → Event → State}

theorem run_apply (states : Key → State) (events : List Event) (own : Key) :
    run key move states events own =
      (events.filter fun event => key event = own).foldl move (states own) := by
  induction events generalizing states with
  | nil => rfl
  | cons event rest ih =>
    have shifted := ih (step key move states event)
    change run key move (step key move states event) rest own = _
    rw [shifted, List.filter_cons]
    by_cases isOwn : key event = own
    · subst isOwn
      simp [step]
    · simp [step, isOwn, Function.update_of_ne (Ne.symm isOwn)]

end GitlabRunner.KeyedStates
