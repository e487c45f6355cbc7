import GitlabRunner.MachineRules

/-!
# The builds of a machine

`MaxBuilds` bounds how often a machine is used.
-/

namespace GitlabRunner.Machine

open Concurrent List ActionRuns Function Semantics Option
open Program (call)

abbrev Holders : Type := Nat → Option Nat

def Holders.set (holders : Holders) (record : Nat) (holder : Option Nat) : Holders :=
  update holders record holder

/-- What the commands do to the holders.  A removal leaves them alone. -/
def noteHolder (self fresh : Nat) : {β : Type} → Command β → Input → Provider → Holders →
    Holders
  | _, .machineDetails name true, _, provider, holders =>
    let (found, record) := provider.lookup name
    if found.machines[record]?.any Details.isUsed then holders
    else holders.set record (some self)
  | _, .newMachine _, _, provider, holders =>
    holders.set provider.machines.length (some self)
  | _, .startCreation details, _, _, holders => holders.set details.record (some fresh)
  | _, .writeState details .idle, _, _, holders => holders.set details.record none
  | _, _, _, _, holders => holders

/-- With a bound of one, a machine that is taken was not used before. -/
def takesUnused (maxBuilds : Int) (_self : Nat) :
    {β : Type} → Command β → Input → Provider → Bool
  | _, .machineDetails name true, _, provider =>
    let (found, record) := provider.lookup name
    decide (2 ≤ maxBuilds) || found.machines[record]?.all fun details =>
      details.isUsed || decide (details.usedCount < maxBuilds)
  | _, _, _, _ => true

structure Details.Left (details changed : Details) : Prop where
  name : changed.name = details.name
  usedCount : changed.usedCount = details.usedCount
  listed : changed.listed = true → details.listed = true
  state : changed.state = details.state ∨ changed.state = .removing

theorem Details.Left.refl (details : Details) : details.Left details :=
  ⟨rfl, rfl, id, .inl rfl⟩

theorem Details.Left.trans {first second third : Details} (left : first.Left second)
    (right : second.Left third) : first.Left third := by
  refine ⟨right.name.trans left.name, right.usedCount.trans left.usedCount,
    left.listed ∘ right.listed, ?_⟩
  rcases right.state with same | removing
  · rw [same]
    exact left.state
  · exact .inr removing

theorem Details.Left.before {details changed : Details} {state : MachineState}
    (left : details.Left changed) (reached : changed.state = state) (other : state ≠ .removing) :
    details.state = state := by
  rcases left.state with same | removing
  · exact same ▸ reached
  · exact absurd (reached.symm.trans removing) other

/-- No machine is used too often, and an idle machine of the map may be used once more:
unless the bound is one, then it may be a machine that was found. -/
structure Details.Bounded (details : Details) (maxBuilds : Int) (holder : Option Nat) :
    Prop where
  used : details.usedCount ≤ maxBuilds
  free : details.state = .idle → holder = none
  idle : details.state = .idle → 2 ≤ maxBuilds → details.listed = true →
    details.usedCount < maxBuilds

theorem Details.Bounded.busy {details : Details} {maxBuilds : Int} {thread : Nat}
    (bounded : details.Bounded maxBuilds (some thread)) : details.state ≠ .idle := by
  intro idle
  cases bounded.free idle

theorem Details.Bounded.left {details changed : Details} {maxBuilds : Int}
    {holder : Option Nat} (bounded : details.Bounded maxBuilds holder)
    (left : details.Left changed) : changed.Bounded maxBuilds holder := by
  have before : changed.state = .idle → details.state = .idle :=
    fun idle => left.before idle (by decide)
  refine ⟨left.usedCount ▸ bounded.used, bounded.free ∘ before, ?_⟩
  intro idle more listed
  rw [left.usedCount]
  exact bounded.idle (before idle) more (left.listed listed)

structure Bounded (maxBuilds : Int) (state : Provider × Holders) : Prop where
  details : ∀ (record : Nat) (details : Details), state.1.machines[record]? = some details →
    details.Bounded maxBuilds (state.2 record)
  unheld : ∀ record, state.1.machines.length ≤ record → state.2 record = none

def Held (thread : Nat) (property : Details → Prop) (pointer : Pointer)
    (state : Provider × Holders) : Prop :=
  ∃ details, state.1.machines[pointer.record]? = some details ∧
    state.2 pointer.record = some thread ∧ details.name = pointer.name ∧ property details

/-- A thread still holds its machines, and the others have left them alone. -/
def LeavesHeld (thread : Nat) (state later : Provider × Holders) : Prop :=
  ∀ (record : Nat) (details : Details), state.1.machines[record]? = some details →
    state.2 record = some thread → ∃ changed, later.1.machines[record]? = some changed ∧
      later.2 record = some thread ∧ details.Left changed

def Assigned (maxBuilds : Int) : Job → Nat → Provider × Holders → Prop
  | .creation pointer, thread, state =>
    Held thread (fun details => details.usedCount < maxBuilds) pointer state
  | .removal _, _, _ => True

def bounding (maxBuilds : Int) : Discipline (semantics.track noteHolder) where
  allowed self _ command input state := takesUnused maxBuilds self command input state.1
  Invariant _ state := Bounded maxBuilds state
  Rely := LeavesHeld
  Spawned := Assigned maxBuilds
  rely_refl _ _ _ details found held := ⟨details, found, held, .refl details⟩
  rely_trans _ _ _ _ first second record details found held := by
    obtain ⟨between, foundBetween, heldBetween, left⟩ := first record details found held
    obtain ⟨last, foundLast, heldLast, right⟩ := second record between foundBetween heldBetween
    exact ⟨last, foundLast, heldLast, left.trans right⟩

section Holders

variable {holders : Holders} {record other : Nat} {holder : Option Nat}

@[simp]
theorem Holders.set_self : holders.set record holder record = holder :=
  update_self ..

theorem Holders.set_ne (different : other ≠ record) :
    holders.set record holder other = holders other :=
  update_of_ne different ..

theorem Holders.set_same (same : holders record = holder) :
    holders.set record holder = holders := by
  subst same
  exact update_eq_self ..

end Holders

variable {maxBuilds : Int} {thread record : Nat} {state later : Provider × Holders}
  {details : Details} {change : Details → Details} {holder : Option Nat}

open Holders

theorem Bounded.modify (bounded : Bounded maxBuilds state)
    (found : state.1.machines[record]? = some details)
    (new : (change details).Bounded maxBuilds holder) :
    Bounded maxBuilds (state.1.modify record change, state.2.set record holder) := by
  refine ⟨?_, ?_⟩
  · intro index after position
    obtain ⟨old, before, ⟨rfl, rfl⟩ | ⟨different, rfl⟩⟩ := Provider.modify_eq_some position
    · rw [found, some.injEq] at before
      subst before
      dsimp only
      rw [set_self]
      exact new
    · dsimp only
      rw [set_ne different.symm]
      exact bounded.details index after before
  · intro index beyond
    have length : (state.1.modify record change).machines.length = state.1.machines.length := by
      simp [Provider.modify]
    have inside := (List.getElem?_eq_some_iff.mp found).1
    dsimp only at beyond ⊢
    rw [length] at beyond
    rw [set_ne (by omega)]
    exact bounded.unheld index beyond

theorem Bounded.add (bounded : Bounded maxBuilds state) (new : details.Bounded maxBuilds holder) :
    Bounded maxBuilds (state.1.add details, state.2.set state.1.machines.length holder) := by
  refine ⟨?_, ?_⟩
  · intro index after position
    rcases Provider.add_eq_some position with old | ⟨rfl, rfl⟩
    · have inside := (List.getElem?_eq_some_iff.mp old).1
      dsimp only
      rw [set_ne (by omega)]
      exact bounded.details index after old
    · dsimp only
      rw [set_self]
      exact new
  · intro index beyond
    have length : (state.1.add details).machines.length = state.1.machines.length + 1 := by
      simp [Provider.add]
    dsimp only at beyond ⊢
    rw [length] at beyond
    rw [set_ne (by omega)]
    exact bounded.unheld index (by omega)

/-- The threads that do not hold a machine do not notice its change. -/
theorem leavesHeld_modify (others : state.2 record ≠ some thread) :
    LeavesHeld thread state (state.1.modify record change, state.2.set record holder) := by
  intro index machine found held
  have different : index ≠ record := by
    rintro rfl
    exact others held
  refine ⟨machine, ?_, ?_, .refl machine⟩
  · dsimp only
    rw [Provider.getElem?_modify, if_neg different.symm]
    exact found
  · dsimp only
    rw [set_ne different]
    exact held

theorem leavesHeld_add :
    LeavesHeld thread state (state.1.add details, state.2.set state.1.machines.length holder) := by
  intro index machine found held
  have inside := (List.getElem?_eq_some_iff.mp found).1
  refine ⟨machine, ?_, ?_, .refl machine⟩
  · dsimp only
    rw [Provider.add, List.getElem?_append_left inside]
    exact found
  · dsimp only
    rw [set_ne (by omega)]
    exact held

/-- A property of a machine that the other threads leave alone. -/
structure Fact where
  holds : Details → Prop
  kept : ∀ {details changed : Details}, details.Left changed → holds details → holds changed

namespace Fact

def any : Fact := ⟨fun _ => True, fun _ => id⟩

def used (count : Int) : Fact :=
  ⟨fun details => details.usedCount = count, fun left => left.usedCount.trans⟩

def unspent (maxBuilds : Int) : Fact where
  holds details := details.usedCount < maxBuilds
  kept left unspent := left.usedCount ▸ unspent

def usable (maxBuilds : Int) : Fact where
  holds details := details.state = .acquired → details.usedCount < maxBuilds
  kept left usable acquired := left.usedCount ▸ usable (left.before acquired (by decide))

/-- A machine in use that has not been counted yet. -/
def taken (maxBuilds : Int) : Fact where
  holds details := details.state ≠ .acquired ∧ details.usedCount < maxBuilds
  kept left taken := ⟨fun acquired => taken.1 (left.before acquired (by decide)),
    left.usedCount ▸ taken.2⟩

def ready (maxBuilds : Int) : Fact where
  holds details := details.listed = true → details.usedCount < maxBuilds
  kept left ready listed := left.usedCount ▸ ready (left.listed listed)

end Fact

variable {property result : Details → Prop} {pointer : Pointer}

theorem Held.mono (held : Held thread property pointer state)
    (weaker : ∀ details, property details → result details) : Held thread result pointer state := by
  obtain ⟨machine, found, holds, name, known⟩ := held
  exact ⟨machine, found, holds, name, weaker machine known⟩

theorem Held.modify_ne (held : Held thread property pointer state)
    (different : pointer.record ≠ record) :
    Held thread property pointer (state.1.modify record change, state.2.set record holder) := by
  obtain ⟨machine, found, holds, known⟩ := held
  refine ⟨machine, ?_, ?_, known⟩
  · dsimp only
    rw [Provider.getElem?_modify, if_neg different.symm]
    exact found
  · dsimp only
    rw [set_ne different]
    exact holds

/-- The machines that a thread holds, and what it knows about each of them. -/
structure Keeping (thread : Nat) (known : List (Pointer × Fact)) (state : Provider × Holders) :
    Prop where
  distinct : (known.map (·.1.record)).Nodup
  held : ∀ item ∈ known, Held thread item.2.holds item.1 state

/-- A build holds some machines that it has not used and others. -/
def lent (maxBuilds : Int) (fresh held : List Pointer) : List (Pointer × Fact) :=
  fresh.map (·, .unspent maxBuilds) ++ held.map (·, .usable maxBuilds)

section Lists

variable {fact after : Fact} {known : List (Pointer × Fact)}

theorem Keeping.leave (keeping : Keeping thread known state)
    (leaves : LeavesHeld thread state later) : Keeping thread known later := by
  refine ⟨keeping.distinct, ?_⟩
  intro item member
  obtain ⟨machine, found, holds, name, holdsFact⟩ := keeping.held item member
  obtain ⟨changed, position, still, left⟩ := leaves _ machine found holds
  exact ⟨changed, position, still, left.name.trans name, item.2.kept left holdsFact⟩

theorem Keeping.stable : (bounding maxBuilds).Stable thread (Keeping thread known) :=
  fun _ _ others keeping => keeping.leave others

theorem Keeping.modify_ne (keeping : Keeping thread known state)
    (elsewhere : record ∉ known.map (·.1.record)) :
    Keeping thread known (state.1.modify record change, state.2.set record holder) := by
  refine ⟨keeping.distinct, ?_⟩
  intro item member
  refine (keeping.held item member).modify_ne ?_
  rintro rfl
  exact elsewhere (mem_map_of_mem member)

theorem Keeping.not_mem (keeping : Keeping thread known state) (free : state.2 record = none) :
    record ∉ known.map (·.1.record) := by
  intro member
  obtain ⟨item, known, rfl⟩ := mem_map.mp member
  obtain ⟨machine, -, holds, -⟩ := keeping.held item known
  rw [free] at holds
  cases holds

theorem keeping_cons : Keeping thread ((pointer, fact) :: known) state ↔
    Keeping thread known state ∧ pointer.record ∉ known.map (·.1.record) ∧
      Held thread fact.holds pointer state := by
  constructor
  · rintro ⟨distinct, held⟩
    obtain ⟨new, distinct⟩ := nodup_cons.mp distinct
    exact ⟨⟨distinct, fun item member => held item (.tail _ member)⟩, new, held _ (.head _)⟩
  · rintro ⟨others, new, held⟩
    exact ⟨nodup_cons.mpr ⟨new, others.distinct⟩, forall_mem_cons.mpr ⟨held, others.held⟩⟩

theorem Keeping.mono (keeping : Keeping thread ((pointer, fact) :: known) state)
    (weaker : ∀ details, fact.holds details → after.holds details) :
    Keeping thread ((pointer, after) :: known) state := by
  obtain ⟨others, new, held⟩ := keeping_cons.mp keeping
  exact keeping_cons.mpr ⟨others, new, held.mono weaker⟩

theorem Keeping.perm {held other : List Pointer}
    (keeping : Keeping thread (lent maxBuilds [] held) state) (same : held.Perm other) :
    Keeping thread (lent maxBuilds [] other) state := by
  have perm : (lent maxBuilds [] held).Perm (lent maxBuilds [] other) := same.map _
  exact ⟨(perm.map _).nodup_iff.mp keeping.distinct,
    fun item member => keeping.held item (perm.mem_iff.mpr member)⟩

/-- A machine that was not used yet is one of the machines that a build holds. -/
theorem Keeping.settle {held : List Pointer} (found : Option Pointer)
    (keeping : Keeping thread (lent maxBuilds found.toList held) state) :
    Keeping thread (lent maxBuilds [] (found.toList ++ held)) state := by
  cases found with
  | none => exact keeping
  | some pointer => exact Keeping.mono keeping fun _ unspent _ => unspent

end Lists

variable {pre : Provider × Holders → Prop}

section Commands

variable {self : Nat} {β : Type} {command : Command β}

/-- The commands that only settle machines, whoever holds them. -/
def Command.harmless : {β : Type} → Command β → Bool
  | _, .addRetry _ => true
  | _, .remove _ _ => true
  | _, .deleteDetails _ => true
  | _, .retryRemoval _ => true
  | _, command => command.observes

theorem Command.harmless_of_observes (observes : command.observes = true) :
    command.harmless = true := by
  cases command <;> first | rfl | exact observes

theorem execute_harmless {fresh : Nat} {input : Input} {provider after : Provider}
    {response : β} {job : Option Job} (harmless : command.harmless = true)
    (executed : execute self fresh command input provider = some (after, response, job)) :
    (after.machines = provider.machines ∨ ∃ record change,
      after = provider.modify record change ∧
        ∀ details : Details, details.Left (change details)) ∧
      ∀ started ∈ job, ∃ pointer, started = .removal pointer := by
  by_cases observes : command.observes = true
  · obtain ⟨same, rfl⟩ := execute_observes observes executed
    exact ⟨.inl same, by simp⟩
  · cases command with
    | addRetry | retryRemoval =>
      obtain ⟨rfl, rfl⟩ := execute_change rfl executed
      exact ⟨.inr ⟨_, _, rfl, fun _ => ⟨rfl, rfl, id, .inl rfl⟩⟩, by simp⟩
    | remove name reason =>
      rcases execute_remove executed with ⟨-, rfl, -, rfl⟩ | ⟨record, -, rfl, -, rfl⟩
      · exact ⟨.inl rfl, by simp⟩
      · exact ⟨.inr ⟨_, _, rfl, fun _ => ⟨rfl, rfl, id, .inr rfl⟩⟩, by simp⟩
    | deleteDetails pointer =>
      obtain ⟨rfl, ⟨-, rfl⟩ | ⟨record, -, rfl⟩⟩ := execute_deleteDetails executed
      · exact ⟨.inl rfl, by simp⟩
      · exact ⟨.inr ⟨_, _, rfl, fun _ => ⟨rfl, rfl, (nomatch ·), .inl rfl⟩⟩, by simp⟩
    | _ => exact absurd harmless observes

theorem Bounded.leave {after : Provider} (bounded : Bounded maxBuilds state)
    (leaves : after.machines = state.1.machines ∨ ∃ record change,
      after = state.1.modify record change ∧ ∀ details : Details, details.Left (change details)) :
    Bounded maxBuilds (after, state.2) ∧ ∀ thread, LeavesHeld thread state (after, state.2) := by
  rcases leaves with same | ⟨record, change, rfl, left⟩
  · refine ⟨⟨?_, ?_⟩, ?_⟩
    · intro index details found
      exact bounded.details index details (same ▸ found)
    · intro index beyond
      exact bounded.unheld index (same ▸ beyond)
    · intro thread index details found holds
      exact ⟨details, same ▸ found, holds, .refl details⟩
  · refine ⟨⟨?_, ?_⟩, ?_⟩
    · intro index details found
      obtain ⟨old, position, ⟨rfl, rfl⟩ | ⟨-, rfl⟩⟩ := Provider.modify_eq_some found
      · exact (bounded.details _ old position).left (left old)
      · exact bounded.details index details position
    · intro index beyond
      refine bounded.unheld index ?_
      simpa [Provider.modify] using beyond
    · intro thread index details found holds
      by_cases same : record = index
      · refine ⟨change details, ?_, holds, left details⟩
        dsimp only
        rw [Provider.getElem?_modify, if_pos same, found, map_some]
      · refine ⟨details, ?_, holds, .refl details⟩
        dsimp only
        rw [Provider.getElem?_modify, if_neg same]
        exact found

theorem keeps_harmless (harmless : command.harmless = true)
    (stable : (bounding maxBuilds).Stable self pre) :
    (bounding maxBuilds).Keeps self pre command (fun _ => pre) := by
  intro threads state input after response job holds bounded _ _ executed
  obtain ⟨performed, noted⟩ := track_eq_some noteHolder executed
  have unnoted : after.2 = state.2 := by
    rw [noted]
    cases command <;> first | rfl | cases harmless
  obtain ⟨leaves, removals⟩ := execute_harmless harmless performed
  obtain ⟨kept, others⟩ := Bounded.leave bounded leaves
  have same : after = (after.1, state.2) := Prod.ext rfl unnoted
  rw [same]
  refine ⟨kept, fun other _ _ => others other, ?_, stable _ _ (others self) holds⟩
  intro started member
  obtain ⟨pointer, rfl⟩ := removals started member
  trivial

theorem triple_harmless (harmless : command.harmless = true)
    (stable : (bounding maxBuilds).Stable self pre) :
    (bounding maxBuilds).Triple self pre (call command) fun _ => pre :=
  .call stable (keeps_harmless harmless stable)

variable {fact after : Fact} {known : List (Pointer × Fact)}

theorem triple_own {post : Provider × Holders → Prop}
    (change : Nat → Details → Details) (holder : Nat → Option Nat) (started : Option Job)
    (changes : ∀ next, command.change self next = some (pointer, change next, started))
    (notes : ∀ next input provider (holders : Holders), holders pointer.record = some self →
      noteHolder self next command input provider holders =
        holders.set pointer.record (holder next))
    (bounds : ∀ next details, fact.holds details → details.Bounded maxBuilds (some self) →
      (change next details).Bounded maxBuilds (holder next))
    (ends : ∀ next details later, fact.holds details → details.name = pointer.name →
      Keeping self known later → pointer.record ∉ known.map (·.1.record) →
      later.1.machines[pointer.record]? = some (change next details) →
      later.2 pointer.record = holder next →
      (∀ job ∈ started, Assigned maxBuilds job next later) ∧ post later) :
    (bounding maxBuilds).Triple self (Keeping self ((pointer, fact) :: known)) (call command)
      fun _ => post := by
  refine .call Keeping.stable ?_
  intro threads state input after response job keeping bounded _ _ executed
  obtain ⟨performed, noted⟩ := track_eq_some noteHolder executed
  obtain ⟨others, new, details, found, holds, name, holdsFact⟩ := keeping_cons.mp keeping
  obtain ⟨changed, rfl⟩ := execute_change (changes threads) performed
  rw [notes _ _ _ _ holds] at noted
  have same : after = (state.1.modify pointer.record (change threads),
      state.2.set pointer.record (holder threads)) := Prod.ext changed noted
  have before := Bounded.details bounded pointer.record details found
  rw [holds] at before
  have position : after.1.machines[pointer.record]? = some (change threads details) := by
    rw [changed, Provider.getElem?_modify, if_pos rfl, found, map_some]
  obtain ⟨spawned, holdsPost⟩ := ends threads details after holdsFact name
    (same ▸ others.modify_ne new) new position (by rw [noted, set_self])
  refine ⟨?_, ?_, spawned, holdsPost⟩
  · rw [same]
    exact Bounded.modify bounded found (bounds threads details holdsFact before)
  · intro other _ different
    rw [same]
    refine leavesHeld_modify ?_
    rw [holds]
    intro taken
    exact different (some.inj taken).symm

theorem triple_keep (after : Fact) (change : Details → Details)
    (changes : ∀ next, command.change self next = some (pointer, change, none))
    (notes : ∀ next input provider (holders : Holders),
      noteHolder self next command input provider holders = holders)
    (name : ∀ details, (change details).name = details.name)
    (used : ∀ details, fact.holds details → details.usedCount ≤ maxBuilds →
      (change details).usedCount ≤ maxBuilds)
    (busy : ∀ details, details.state ≠ .idle → (change details).state ≠ .idle)
    (leads : ∀ details, fact.holds details → after.holds (change details)) :
    (bounding maxBuilds).Triple self (Keeping self ((pointer, fact) :: known)) (call command)
      fun _ => Keeping self ((pointer, after) :: known) := by
  refine triple_own (fun _ => change) (fun _ => some self) none changes ?_ ?_ ?_
  · intro next input provider holders holds
    rw [set_same holds]
    exact notes next input provider holders
  · intro next details known bounded
    have notIdle := busy details bounded.busy
    exact ⟨used details known bounded.used, fun idle => absurd idle notIdle,
      fun idle => absurd idle notIdle⟩
  · intro next details later known same others new position holds
    exact ⟨by simp, keeping_cons.mpr ⟨others, new, change details, position, holds,
      (name details).trans same, leads details known⟩⟩

theorem triple_write {written : MachineState} (after : Fact) (notIdle : written ≠ .idle)
    (leads : ∀ details, fact.holds details → after.holds (details.write self written)) :
    (bounding maxBuilds).Triple self (Keeping self ((pointer, fact) :: known))
      (call (.writeState pointer written)) fun _ => Keeping self ((pointer, after) :: known) := by
  refine triple_keep after (Details.write self written) (fun _ => rfl) ?_ (fun _ => rfl)
    (fun _ _ => id) (fun _ _ => notIdle) leads
  intro next input provider holders
  cases written <;> first | rfl | contradiction

/-- A build gives a machine back that may be used once more, or that is no longer in the
map. -/
theorem triple_writeIdle (ready : ∀ details, fact.holds details → details.listed = true →
      details.usedCount < maxBuilds) :
    (bounding maxBuilds).Triple self (Keeping self ((pointer, fact) :: known))
      (call (.writeState pointer .idle)) fun _ => Keeping self known := by
  refine triple_own (fun _ => Details.write self .idle) (fun _ => none) none (fun _ => rfl)
    (fun _ _ _ _ _ => rfl) ?_ ?_
  · intro next details known bounded
    exact ⟨bounded.used, fun _ => rfl, fun _ _ => ready details known⟩
  · intro next details later _ _ others _ _ _
    exact ⟨by simp, others⟩

/-- A build hands a machine over to the goroutine that creates it. -/
theorem triple_startCreation :
    (bounding maxBuilds).Triple self (Keeping self ((pointer, .unspent maxBuilds) :: known))
      (call (.startCreation pointer)) fun _ => Keeping self known := by
  refine triple_own (Details.handOver self) some (some (.creation pointer))
    (fun _ => rfl) (fun _ _ _ _ _ => rfl) ?_ ?_
  · intro next details known bounded
    exact ⟨bounded.used, fun idle => absurd idle bounded.busy, fun idle => absurd idle bounded.busy⟩
  · intro next details later known name others _ position holds
    refine ⟨?_, others⟩
    intro job started
    obtain rfl := some.inj started
    exact ⟨details.handOver self next, position, holds, name, known⟩

theorem triple_read (after : β → Fact) (view : Details → β) (observes : command.observes = true)
    (reads : ∀ next input provider, execute self next command input provider = none ∨
      execute self next command input provider =
        provider.machines[pointer.record]?.map fun details => (provider, view details, none))
    (leads : ∀ details, fact.holds details → (after (view details)).holds details) :
    (bounding maxBuilds).Triple self (Keeping self ((pointer, fact) :: known)) (call command)
      fun response => Keeping self ((pointer, after response) :: known) := by
  refine .call Keeping.stable ?_
  intro threads state input later response job keeping bounded running allowed executed
  obtain ⟨invariant, others, started, still⟩ :=
    keeps_harmless (Command.harmless_of_observes observes) Keeping.stable
      threads state input later response job keeping bounded running allowed executed
  obtain ⟨performed, noted⟩ := track_eq_some noteHolder executed
  refine ⟨invariant, others, started, ?_⟩
  obtain ⟨rest, new, details, position, holds, name, holdsFact⟩ := keeping_cons.mp still
  obtain none | some := reads threads input state.1
  · cases none.symm.trans performed
  · obtain ⟨seen, found, same⟩ := Option.map_eq_some_iff.mp (some.symm.trans performed)
    obtain ⟨unchanged, rfl, -⟩ := Prod.mk.inj same |>.imp_right Prod.mk.inj
    rw [← unchanged, found, Option.some.injEq] at position
    subst position
    exact keeping_cons.mpr ⟨rest, new, seen, unchanged ▸ found, holds, name, leads seen holdsFact⟩

/-- If the map has no machine to remove, then the machine that a build holds is no longer in
the map. -/
theorem triple_remove (reason : RemoveReason) :
    (bounding maxBuilds).Triple self (Keeping self ((pointer, fact) :: known))
      (call (.remove pointer.name reason)) fun gone later => Keeping self known later ∧
        (gone = false → Keeping self ((pointer, .ready maxBuilds) :: known) later) := by
  refine .call Keeping.stable ?_
  intro threads state input after response job keeping bounded running allowed executed
  obtain ⟨invariant, others, started, still⟩ := keeps_harmless rfl Keeping.stable
    threads state input after response job keeping bounded running allowed executed
  obtain ⟨performed, noted⟩ := track_eq_some noteHolder executed
  obtain ⟨rest, new, details, found, holds, name, -⟩ := keeping_cons.mp still
  refine ⟨invariant, others, started, rest, ?_⟩
  intro failed
  rcases execute_remove performed with ⟨absent, same, -⟩ | ⟨record, -, -, removed, -⟩
  · refine keeping_cons.mpr ⟨rest, new, details, found, holds, name, ?_⟩
    intro listed
    exact absurd name (Provider.find_eq_none absent (same ▸ found) listed)
  · rw [failed] at removed
    cases removed

section

variable (positive : 0 < maxBuilds)

include positive

theorem bounded_new (name : String) : (Details.new name).Bounded maxBuilds none :=
  ⟨positive, fun _ => rfl, fun _ more _ => more⟩

/-- `machineDetails` finds the record of a name or makes an idle one. -/
theorem Bounded.lookup {name : String} {found : Provider}
    (bounded : Bounded maxBuilds state) (looked : state.1.lookup name = (found, record)) :
    Bounded maxBuilds (found, state.2) ∧ (∀ thread, LeavesHeld thread state (found, state.2)) ∧
      ∃ details, found.machines[record]? = some details ∧ details.name = name ∧
        details.listed = true := by
  unfold Provider.lookup at looked
  split at looked
  · rename_i present
    cases looked
    obtain ⟨details, position, listed, same⟩ := Provider.find_eq_some present
    exact ⟨bounded, fun thread => (bounding maxBuilds).rely_refl thread state, details,
      position, same, listed⟩
  · cases looked
    have same : state.2.set state.1.machines.length none = state.2 :=
      set_same (bounded.unheld _ (Nat.le_refl _))
    rw [← same]
    exact ⟨bounded.add (bounded_new positive name), fun _ => leavesHeld_add, .new name,
      by simp [Provider.add], rfl, rfl⟩

theorem triple_machineDetails {fresh held : List Pointer} (name : String) (acquire : Bool) :
    (bounding maxBuilds).Triple self (Keeping self (lent maxBuilds fresh held))
      (call (.machineDetails name acquire))
      fun found later => (∀ pointer ∈ found, pointer.name = name) ∧ Keeping self
        (lent maxBuilds ((if acquire then found else none).toList ++ fresh) held) later := by
  refine .call Keeping.stable ?_
  intro threads state input after response job keeping bounded _ allowed executed
  obtain ⟨performed, noted⟩ := track_eq_some noteHolder executed
  obtain ⟨rfl, found, record, looked, taken⟩ := execute_machineDetails performed
  obtain ⟨kept, others, details, position, same, listed⟩ :=
    Bounded.lookup positive bounded looked
  have still : Keeping self (lent maxBuilds fresh held) (found, state.2) :=
    keeping.leave (others self)
  rcases taken with ⟨rfl, rfl, changed, used⟩ | ⟨rfl, rfl, changed, free⟩ | ⟨rfl, rfl, changed⟩
  · have untouched : after = (found, state.2) := by
      refine Prod.ext changed ?_
      simp only [noted, noteHolder, looked, used, if_true]
    rw [untouched]
    exact ⟨kept, fun other _ _ => others other, by simp, by simp, still⟩
  · have idle : details.state = .idle := by simpa [position, Details.isUsed] using free
    have before := kept.details record details position
    have nobody : state.2 record = none := before.free idle
    have unspent : details.usedCount < maxBuilds := by
      by_cases more : 2 ≤ maxBuilds
      · exact before.idle idle more listed
      · simpa [bounding, takesUnused, looked, position, more, Details.isUsed, idle] using allowed
    have moved : after = (found.modify record (.take self), state.2.set record (some self)) := by
      refine Prod.ext changed ?_
      simp [noted, noteHolder, looked, free]
    rw [moved]
    have busy : (details.take self).state ≠ .idle := by simp [Details.take]
    refine ⟨?_, ?_, by simp, by simp, keeping_cons.mpr ⟨?_, ?_, ?_⟩⟩
    · exact Bounded.modify kept position
        ⟨before.used, fun idle => absurd idle busy, fun idle => absurd idle busy⟩
    · intro other _ _
      refine (bounding maxBuilds).rely_trans other _ _ _ (others other) (leavesHeld_modify ?_)
      simp [nobody]
    · exact still.modify_ne (still.not_mem nobody)
    · exact still.not_mem nobody
    · refine ⟨details.take self, ?_, set_self, same, unspent⟩
      simp [Provider.getElem?_modify, position]
  · have untouched : after = (found, state.2) := Prod.ext changed noted
    rw [untouched]
    exact ⟨kept, fun other _ _ => others other, by simp, by simp, still⟩

theorem triple_newMachine (made : MachineState) :
    (bounding maxBuilds).Triple self (Keeping self known) (call (.newMachine made))
      fun pointer => Keeping self ((pointer, .any) :: known) := by
  refine .call Keeping.stable ?_
  intro threads state input after response job keeping bounded _ _ executed
  obtain ⟨performed, noted⟩ := track_eq_some noteHolder executed
  obtain ⟨rfl, name, -, rfl, changed⟩ := execute_newMachine performed
  have unheld := Bounded.unheld bounded _ (Nat.le_refl state.1.machines.length)
  have moved : after = (state.1.add { Details.new name with state := .acquired, owners := [self] },
      state.2.set state.1.machines.length (some self)) := Prod.ext changed noted
  rw [moved]
  refine ⟨?_, fun _ _ _ => leavesHeld_add, by simp, keeping_cons.mpr ⟨?_, ?_, ?_⟩⟩
  · exact Bounded.add bounded ⟨positive, nofun, nofun⟩
  · exact keeping.leave leavesHeld_add
  · exact keeping.not_mem unheld
  · exact ⟨{ Details.new name with state := .acquired, owners := [self] },
      by simp [Provider.add], set_self, rfl, trivial⟩

theorem create_bounded (made : MachineState) :
    (bounding maxBuilds).Triple self (Keeping self known) (create made)
      fun pointer => Keeping self ((pointer, .unspent maxBuilds) :: known) := by
  refine .bind (triple_newMachine positive made) fun pointer => ?_
  refine .bind (triple_write .any (by decide) fun _ => id) fun _ => ?_
  refine .bind (triple_keep (.unspent maxBuilds) _ (fun _ => rfl) (fun _ _ _ _ => rfl)
    (fun _ => rfl) ?_ (fun _ => id) fun _ _ => positive) fun _ _ keeping => keeping
  exact fun _ _ _ => Int.le_of_lt positive

end

end Commands

section Programs

variable {self : Nat} {fresh held : List Pointer}

section

variable (positive : 0 < maxBuilds)

include positive

theorem lending_bounded (self : Nat) (held : List Pointer) :
    Lending (bounding maxBuilds) self (fun fresh => Keeping self (lent maxBuilds fresh held))
      (fun pointer fresh => Keeping self (lent maxBuilds (pointer :: fresh) held)) where
  observe observes := triple_harmless (Command.harmless_of_observes observes) Keeping.stable
  machineDetails name acquire _ := triple_machineDetails positive name acquire
  create made _ := create_bounded positive made
  startCreation := triple_startCreation
  keep := id
  addRetry _ := triple_harmless rfl Keeping.stable
  writeAcquired := triple_write (.unspent maxBuilds) (by decide) fun _ => id
  remove reason _ state keeping := (triple_remove reason state keeping).mono fun _ _ => And.left
  removeIdle _ := triple_harmless rfl Keeping.stable

theorem body_bounded (job : Job) (assigned : Assigned maxBuilds job self state) :
    (bounding maxBuilds).Safe self (fun _ _ => True) (body job) state := by
  cases job with
  | creation pointer =>
    have keeping : Keeping self (lent maxBuilds [pointer] []) state :=
      keeping_cons.mpr ⟨⟨nodup_nil, by simp⟩, by simp, assigned⟩
    have finish : (bounding maxBuilds).Triple self (Keeping self (lent maxBuilds [pointer] []))
        (call (.writeState pointer .idle)) fun _ => Keeping self (lent maxBuilds ([] ++ []) []) :=
      triple_writeIdle fun _ unspent _ => unspent
    exact ((lending_bounded positive self []).createMachine finish _ keeping).bind
      fun _ _ _ => trivial
  | removal pointer =>
    exact Discipline.Safe.of_every (finalizeRemoval_every pointer (fun _ => rfl) rfl rfl rfl)
      (fun _ _ _ _ => trivial) (fun _ harmless => keeps_harmless harmless fun _ _ _ _ => trivial)
      trivial

theorem removed_bounded (config : RunnerConfig) (limit : config.maxBuilds = maxBuilds) :
    (bounding maxBuilds).Triple self (Keeping self (lent maxBuilds [] (pointer :: held)))
      (release.removed config pointer)
      fun gone later => Keeping self (lent maxBuilds [] held) later ∧ (gone = false →
        Keeping self ((pointer, .ready maxBuilds) :: lent maxBuilds [] held) later) := by
  unfold release.removed
  rw [limit, if_pos positive]
  refine .bind (triple_read .used Details.usedCount rfl ?_ fun _ _ => rfl) fun usedCount => ?_
  · intro next input provider
    cases input <;> first | exact .inl rfl | exact .inr rfl
  · split
    · exact triple_remove .releasedTooManyBuilds
    · rename_i few
      intro state keeping
      refine ⟨(keeping_cons.mp keeping).1, fun _ => keeping.mono ?_⟩
      rintro details rfl _
      exact Int.not_le.mp few

/-- `Release` gives back a machine that may be used once more, and a machine that is no
longer in the map. -/
theorem release_bounded (config : RunnerConfig)
    (limit : config.maxBuilds = maxBuilds) (data : Option Pointer) :
    (bounding maxBuilds).Triple self (Keeping self (lent maxBuilds [] (data.toList ++ held)))
      (release config data) fun _ => Keeping self (lent maxBuilds [] held) := by
  cases data with
  | none => exact fun _ keeping => keeping
  | some pointer =>
    refine .bind (removed_bounded positive config limit) fun gone => ?_
    cases gone with
    | true => exact fun _ removed => removed.1
    | false => exact .weaken (triple_writeIdle fun _ => id) fun _ kept => kept.2 rfl

end

theorem usable_bounded (data : Option Pointer) (known : ∀ pointer ∈ data, pointer ∈ held) :
    (bounding maxBuilds).Triple self (Keeping self (lent maxBuilds [] held)) (usable data)
      fun found later => (found = none → Keeping self (lent maxBuilds [] held) later) ∧
        ∀ pointer ∈ found, pointer ∈ held ∧
          Keeping self (lent maxBuilds [pointer] (held.erase pointer)) later := by
  cases data with
  | none => exact fun _ keeping => ⟨fun _ => keeping, by simp⟩
  | some pointer =>
    have same := perm_cons_erase (known pointer rfl)
    have notFound : ∀ state,
        Keeping self (lent maxBuilds [] (pointer :: held.erase pointer)) state →
        Keeping self (lent maxBuilds [] held) state := fun _ keeping => keeping.perm same.symm
    refine .weaken (.bind (triple_read
      (fun seen => if seen = .acquired then .unspent maxBuilds else .usable maxBuilds)
      Details.state rfl ?_ ?_) fun seen => ?_) fun _ keeping => keeping.perm same
    · intro next input provider
      cases input <;> first | exact .inl rfl | exact .inr rfl
    · intro details usable
      split
      · exact usable ‹_›
      · exact usable
    · split
      · refine .bind (triple_harmless rfl Keeping.stable) fun connected state unspent => ?_
        split
        · refine ⟨by simp, ?_⟩
          rintro other ⟨⟩
          exact ⟨known pointer rfl, unspent⟩
        · exact ⟨fun _ => notFound _ (Keeping.mono unspent fun _ unspent _ => unspent), by simp⟩
      · exact fun _ usable => ⟨fun _ => notFound _ usable, by simp⟩

theorem useDetails_bounded (positive : 0 < maxBuilds) (config : RunnerConfig)
    (limit : config.maxBuilds = maxBuilds) (newData : Option Pointer) {rest : List Pointer}
    (same : (pointer :: rest).Perm (newData.toList ++ held)) :
    (bounding maxBuilds).Triple self (Keeping self (lent maxBuilds [pointer] rest))
      (useDetails config pointer newData)
      fun result => Keeping self (lent maxBuilds [] (result.join.toList ++ held)) := by
  refine .bind (triple_harmless rfl Keeping.stable) fun credentials => ?_
  split
  · refine .bind (triple_write (.taken maxBuilds) (by decide) ?_) fun _ => ?_
    · exact fun _ unspent => ⟨by simp [Details.write], unspent⟩
    · refine .bind (triple_keep (.usable maxBuilds) _ (fun _ => rfl) (fun _ _ _ _ => rfl)
        (fun _ => rfl) ?_ (fun _ => id) ?_)
        fun _ _ (usable : Keeping self (lent maxBuilds [] (pointer :: rest)) _) => usable.perm same
      · exact fun _ taken _ => Int.add_one_le_of_lt taken.2
      · exact fun _ taken acquired => absurd acquired taken.1
  · refine .bind (.weaken (release_bounded positive config limit newData) ?_)
      fun _ _ keeping => keeping
    exact fun _ keeping => (Keeping.settle (some pointer) keeping).perm same

theorem use_bounded (positive : 0 < maxBuilds) (config : RunnerConfig)
    (limit : config.maxBuilds = maxBuilds) (data : Option Pointer)
    (known : ∀ pointer ∈ data, pointer ∈ held) :
    (bounding maxBuilds).Triple self (Keeping self (lent maxBuilds [] held)) (use config data)
      fun result => Keeping self (lent maxBuilds [] (result.join.toList ++ held)) := by
  refine .bind (usable_bounded data known) ?_
  rintro found state ⟨noMachine, machine⟩
  cases found with
  | some pointer =>
    obtain ⟨member, keeping⟩ := machine pointer rfl
    exact useDetails_bounded positive config limit none (perm_cons_erase member).symm _ keeping
  | none =>
    refine ((lending_bounded positive self held).retryUseMachine config 3 _ (noMachine rfl)).bind ?_
    intro found state keeping
    rw [append_nil] at keeping
    cases found with
    | none => exact keeping
    | some pointer =>
      exact useDetails_bounded positive config limit (some pointer) (List.Perm.refl _) _ keeping

theorem build_bounded (positive : 0 < maxBuilds) (config : RunnerConfig)
    (limit : config.maxBuilds = maxBuilds) (calls : List Call) (held : List Pointer) :
    (bounding maxBuilds).Triple self (Keeping self (lent maxBuilds [] held))
      (build config calls held) fun _ _ => True := by
  induction calls generalizing held with
  | nil => exact fun _ _ => trivial
  | cons first calls ih =>
    cases first with
    | acquire =>
      refine .bind ((lending_bounded positive self held).acquire config) ?_
      intro result state keeping
      rw [append_nil] at keeping
      exact ih _ _ (keeping.settle result.join)
    | use data => exact .bind (use_bounded positive config limit _ (mem_of_held data)) fun _ => ih _
    | release data =>
      exact .bind (.weaken (release_bounded positive config limit held[data]?)
        fun _ keeping => keeping.perm (perm_getElem?_eraseIdx held data)) fun _ => ih _

end Programs

theorem startBuilds_bounded (positive : 0 < maxBuilds) {builds : List (RunnerConfig × List Call)}
    (limits : ∀ build ∈ builds, build.1.maxBuilds = maxBuilds) :
    ((startBuilds builds).tracked fun _ => none).Safe (bounding maxBuilds) (fun _ _ => True) := by
  refine ⟨⟨?_, fun _ _ => rfl⟩, ?_⟩
  · intro record details found
    simp [startBuilds, Provider.start, Pool.tracked] at found
  · intro index program position
    obtain ⟨⟨config, calls⟩, member, rfl⟩ := mem_map.mp (mem_of_getElem? position)
    exact build_bounded positive config (limits _ member) calls [] _ ⟨nodup_nil, by simp [lent]⟩

/-- Along every run of any number of builds with the same bound, and whatever machines exist
already, no machine is used more often than the bound.  With a bound of one, this takes that
no machine is taken that was used before. -/
theorem usedCount_le_maxBuilds (positive : 0 < maxBuilds) {builds : List (RunnerConfig × List Call)}
    (limits : ∀ build ∈ builds, build.1.maxBuilds = maxBuilds)
    {actions : List (Nat × Input)} {pool : Pool Provider Command}
    (meets : MeetsAlong (Pool.step semantics)
      (fun pool action => pool.meets (takesUnused maxBuilds) action = true) (startBuilds builds)
      actions) (reached : run (Pool.step semantics) (startBuilds builds) actions = some pool) :
    ∀ details ∈ pool.state.machines, details.usedCount ≤ maxBuilds := by
  intro details member
  obtain ⟨holders, safe⟩ := (startBuilds_bounded positive limits).run_tracked noteHolder
    (fun _ _ _ _ _ => trivial) (fun job _ _ => body_bounded positive job)
    (fun _ _ _ _ => id) meets reached
  obtain ⟨record, found⟩ := mem_iff_getElem?.mp member
  exact (Bounded.details safe.invariant record details found).used

def boundedConfig (maxBuilds : Int) : RunnerConfig where
  limit := 0
  machineName := "machine-%s"
  maxBuilds := maxBuilds
  idleCount := 0
  offPeakIdleCount := 0
  matchesFilter _ := true

def createAndUseActions : List (Nat × Input) :=
  [(0, .names (some [])), (0, .name "a"), (0, .nothing), (0, .nothing), (0, .answer true),
    (0, .nothing), (0, .answer true), (0, .nothing), (0, .nothing)]

theorem usedCount_le_maxBuilds_created :
    ∃ pool, run (Pool.step semantics)
        (startBuilds [(boundedConfig 1, [.use none])]) createAndUseActions = some pool ∧
      pool.state.machines.map Details.usedCount = [1] ∧
      ∀ details ∈ pool.state.machines, details.usedCount ≤ 1 := by
  have counts : (run (Pool.step semantics)
      (startBuilds [(boundedConfig 1, [.use none])]) createAndUseActions).map
        (fun pool => pool.state.machines.map Details.usedCount) = some [1] := by decide
  obtain ⟨pool, reached, same⟩ := Option.map_eq_some_iff.mp counts
  exact ⟨pool, reached, same,
    usedCount_le_maxBuilds (by decide) (by simp [boundedConfig]) (by decide) reached⟩

def findAndUseActions : List (Nat × Input) :=
  [(0, .names (some ["a"])), (0, .nothing), (0, .answer true), (0, .answer true),
    (0, .nothing), (0, .nothing)]

/-- With a bound of one, `Use` takes a machine that counts as used. -/
theorem found_machine_used_again :
    ¬∀ (maxBuilds : Int) (builds : List (RunnerConfig × List Call))
      (actions : List (Nat × Input)) (pool : Pool Provider Command), 0 < maxBuilds →
      (∀ build ∈ builds, build.1.maxBuilds = maxBuilds) →
      run (Pool.step semantics) (startBuilds builds) actions = some pool →
        ∀ details ∈ pool.state.machines, details.usedCount ≤ maxBuilds := by
  intro bounded
  have counts : (run (Pool.step semantics)
      (startBuilds [(boundedConfig 1, [.use none])]) findAndUseActions).map
        (fun pool => pool.state.machines.map Details.usedCount) = some [2] := by decide
  obtain ⟨pool, reached, same⟩ := Option.map_eq_some_iff.mp counts
  obtain ⟨details, member, used⟩ := mem_map.mp (same ▸ mem_singleton_self (2 : Int))
  have atMost := bounded 1 _ _ pool (by decide) (by simp [boundedConfig]) reached details member
  omega

end GitlabRunner.Machine
