import GitlabRunner.MachineRules

/-!
# Who is in charge of a machine

A machine that a build took is held by that build alone until it is released, no one else
has it removed meanwhile, and a machine whose removal was requested is never used again.
-/

namespace GitlabRunner.Machine

open Concurrent List ActionRuns Option Details Provider

/-- When `updateMachines` removes a machine, the machine is idle. -/
def removesIdle (_self : Nat) : {β : Type} → Command β → Input → Provider → Bool
  | _, .remove name reason, _, provider =>
    !reason.ofUpdate ||
      (provider.find name).all fun record =>
        provider.machines[record]?.any fun details => details.state = .idle
  | _, _, _, _ => true

/-- Who is in charge of a machine in each of its states.  The threads below
`builds` are builds, so a machine that is being removed has none. -/
def Details.Sound (details : Details) (builds : Nat) : Prop :=
  match details.state with
  | .idle => details.owners = [] ∧ details.requested = false ∧ details.listed = true
  | .removing =>
    details.requested = true ∧
      ((∃ thread, details.owners = [thread] ∧ builds ≤ thread) ∧ details.listed = true ∨
        details.owners = [] ∧ details.listed = false)
  | _ =>
    details.requested = false ∧ details.listed = true ∧
      ∃ thread, details.owners = [thread]

/-- Every machine is sound, and the map has one record for a name. -/
structure Provider.Sound (provider : Provider) (builds : Nat) : Prop where
  details : ∀ details ∈ provider.machines, details.Sound builds
  unique : ∀ (first second : Nat) (left right : Details),
    provider.machines[first]? = some left → provider.machines[second]? = some right →
    left.listed = true → right.listed = true → left.name = right.name → first = second

/-- A machine stays as it is while the thread is in charge of it. -/
def KeepsOwned (self : Nat) (provider later : Provider) : Prop :=
  ∀ (record : Nat) (details : Details), provider.machines[record]? = some details →
    details.owners = [self] → later.machines[record]? = some details

def OwnedBy (self : Nat) (pointer : Pointer) (requested : Bool) (provider : Provider) :
    Prop :=
  ∃ details, provider.machines[pointer.record]? = some details ∧
    details.name = pointer.name ∧ details.owners = [self] ∧ details.requested = requested

def Started : Job → Nat → Provider → Prop
  | .creation pointer, self, provider => OwnedBy self pointer false provider
  | .removal pointer, self, provider => OwnedBy self pointer true provider

def ownership (builds : Nat) : Discipline semantics where
  allowed := removesIdle
  Invariant threads provider := builds ≤ threads ∧ provider.Sound builds
  Rely := KeepsOwned
  Spawned := Started
  rely_refl _ _ _ _ found _ := found
  rely_trans _ _ _ _ first second record details found owned :=
    second record details (first record details found owned) owned

variable {builds : Nat}

theorem OwnedBy.stable (self : Nat) (pointer : Pointer) (requested : Bool) :
    (ownership builds).Stable self (OwnedBy self pointer requested) := by
  rintro provider later others ⟨details, found, name, owned, same⟩
  exact ⟨details, others _ _ found owned, name, owned, same⟩

structure Holding (thread : Nat) (held : List Pointer) (provider : Provider) : Prop where
  distinct : (held.map Pointer.record).Nodup
  owned : ∀ pointer ∈ held, OwnedBy thread pointer false provider

theorem Holding.stable (self : Nat) (held : List Pointer) :
    (ownership builds).Stable self (Holding self held) := by
  intro provider later others holding
  refine ⟨holding.distinct, ?_⟩
  intro pointer member
  exact OwnedBy.stable self pointer false provider later others (holding.owned pointer member)

section Holding

variable {provider : Provider} {details : Details} {self : Nat} {held : List Pointer}
  {pointer : Pointer}

theorem Holding.of_cons (holding : Holding self (pointer :: held) provider) :
    Holding self held provider ∧ pointer.record ∉ held.map Pointer.record ∧
      OwnedBy self pointer false provider := by
  have distinct := nodup_cons.mp holding.distinct
  exact ⟨⟨distinct.2, fun other member => holding.owned other (by simp [member])⟩,
    distinct.1, holding.owned pointer (by simp)⟩

theorem Holding.cons (holding : Holding self held provider)
    (new : pointer.record ∉ held.map Pointer.record) (owned : OwnedBy self pointer false provider) :
    Holding self (pointer :: held) provider := by
  refine ⟨nodup_cons.mpr ⟨new, holding.distinct⟩, ?_⟩
  intro other member
  rcases mem_cons.mp member with rfl | old
  · exact owned
  · exact holding.owned other old

theorem Holding.not_mem {record : Nat} (holding : Holding self held provider)
    (found : provider.machines[record]? = some details) (free : details.owners = []) :
    record ∉ held.map Pointer.record := by
  intro member
  obtain ⟨pointer, isHeld, rfl⟩ := mem_map.mp member
  obtain ⟨other, position, -, owned, -⟩ := holding.owned pointer isHeld
  rw [found, some.injEq] at position
  rw [← position, free] at owned
  cases owned

theorem Holding.perm {other : List Pointer} (holding : Holding self held provider)
    (same : held.Perm other) : Holding self other provider := by
  refine ⟨(same.map _).nodup_iff.mp holding.distinct, ?_⟩
  intro pointer member
  exact holding.owned pointer (same.mem_iff.mpr member)

end Holding

variable {provider : Provider} {details : Details}

/-- A machine in use: someone is in charge of it and no removal was requested. -/
theorem Details.sound_iff_busy {thread : Nat} (owned : details.owners = [thread])
    (requested : details.requested = false) :
    details.Sound builds ↔
      details.listed = true ∧ details.state ≠ .idle ∧ details.state ≠ .removing := by
  cases state : details.state <;> simp [Details.Sound, state, owned, requested]

theorem Details.sound_iff_removing {thread : Nat} (owned : details.owners = [thread])
    (requested : details.requested = true) :
    details.Sound builds ↔ details.listed = true ∧ details.state = .removing ∧ builds ≤ thread := by
  cases state : details.state <;> simp [Details.Sound, state, owned, requested, and_comm]

/-- Only a machine that is being removed has its removal requested. -/
theorem Details.Sound.removing (sound : details.Sound builds)
    (requested : details.requested = true) : details.state = .removing := by
  unfold Details.Sound at sound
  split at sound
  · rw [requested] at sound
    cases sound.2.1
  · assumption
  · rw [requested] at sound
    cases sound.1

theorem Details.Sound.idle (sound : details.Sound builds) (state : details.state = .idle) :
    details.owners = [] ∧ details.requested = false ∧ details.listed = true := by
  simpa only [Details.Sound, state] using sound

section Change

variable {provider : Provider} {record : Nat} {details : Details}
  {change : Details → Details} {self : Nat}

theorem Provider.Sound.modify (sound : provider.Sound builds)
    (found : provider.machines[record]? = some details)
    (changed : (change details).Sound builds) (name : (change details).name = details.name)
    (listed : (change details).listed = true → details.listed = true) :
    (provider.modify record change).Sound builds := by
  refine ⟨?_, Provider.Unique.modify sound.unique ?_⟩
  · intro after member
    obtain ⟨index, position⟩ := mem_iff_getElem?.mp member
    rw [getElem?_modify] at position
    split at position
    · rename_i same
      subst same
      rw [found, map_some, some.injEq] at position
      exact position ▸ changed
    · exact sound.details after (mem_of_getElem? position)
  · intro old position
    rw [found, some.injEq] at position
    exact position ▸ ⟨name, listed⟩

theorem Provider.Sound.add (sound : provider.Sound builds) (new : details.Sound builds)
    (absent : provider.find details.name = none) : (provider.add details).Sound builds := by
  refine ⟨?_, Provider.Unique.add sound.unique absent⟩
  intro after member
  rcases mem_append.mp member with old | added
  · exact sound.details after old
  · rw [mem_singleton.mp added]
    exact new

theorem keepsOwned_modify (found : provider.machines[record]? = some details)
    (free : ∀ thread, details.owners = [thread] → thread = self) {other : Nat}
    (different : other ≠ self) : KeepsOwned other provider (provider.modify record change) := by
  intro index machine position owned
  rw [Provider.getElem?_modify]
  split
  · rename_i same
    subst same
    rw [found, some.injEq] at position
    subst position
    exact absurd (free other owned) different
  · exact position

theorem keepsOwned_add (other : Nat) (details : Details) :
    KeepsOwned other provider (provider.add details) := by
  intro index machine position owned
  rw [add, List.getElem?_append_left (List.getElem?_eq_some_iff.mp position).1]
  exact position

theorem OwnedBy.modify_ne {pointer : Pointer} {requested : Bool}
    (owned : OwnedBy self pointer requested provider) (different : record ≠ pointer.record) :
    OwnedBy self pointer requested (provider.modify record change) := by
  obtain ⟨machine, found, rest⟩ := owned
  refine ⟨machine, ?_, rest⟩
  rw [Provider.getElem?_modify, if_neg different]
  exact found

variable {held : List Pointer}

/-- The machines that a build holds are not touched by a change elsewhere. -/
theorem Holding.modify_ne (holding : Holding self held provider)
    (elsewhere : record ∉ held.map Pointer.record) :
    Holding self held (provider.modify record change) := by
  refine ⟨holding.distinct, ?_⟩
  intro pointer member
  refine (holding.owned pointer member).modify_ne ?_
  rintro rfl
  exact elsewhere (mem_map_of_mem member)

theorem Holding.add (holding : Holding self held provider)
    (details : Details) : Holding self held (provider.add details) := by
  refine ⟨holding.distinct, ?_⟩
  intro pointer member
  obtain ⟨machine, found, name, owned, requested⟩ := holding.owned pointer member
  exact ⟨machine, keepsOwned_add self details _ _ found owned, name, owned, requested⟩

/-- The change of a machine that the build holds and goes on to hold. -/
theorem Holding.modify_held {pointer : Pointer} (holding : Holding self held provider)
    (found : provider.machines[pointer.record]? = some details)
    (name : (change details).name = details.name)
    (owners : (change details).owners = details.owners)
    (requested : (change details).requested = details.requested) :
    Holding self held (provider.modify pointer.record change) := by
  refine ⟨holding.distinct, ?_⟩
  intro other otherMember
  by_cases same : pointer.record = other.record
  · obtain ⟨machine, position, rest⟩ := holding.owned other otherMember
    rw [← same, found, some.injEq] at position
    subst position
    refine ⟨change details, ?_, ?_⟩
    · rw [Provider.getElem?_modify, if_pos same, ← same, found, map_some]
    · rw [name, owners, requested]
      exact rest
  · exact (holding.owned other otherMember).modify_ne same

end Change

variable {later : Provider}

section Commands

open Program (call)

variable {self : Nat} {provider : Provider} {held : List Pointer} {pointer : Pointer}
  {β : Type} {requested : Bool}

theorem Provider.Sound.congr (sound : provider.Sound builds)
    (same : later.machines = provider.machines) : later.Sound builds := by
  refine ⟨?_, ?_⟩
  · rw [same]
    exact sound.details
  · rw [same]
    exact sound.unique

theorem OwnedBy.congr (owned : OwnedBy self pointer requested provider)
    (same : later.machines = provider.machines) : OwnedBy self pointer requested later := by
  unfold OwnedBy
  rw [same]
  exact owned

theorem Holding.congr (holding : Holding self held provider)
    (same : later.machines = provider.machines) : Holding self held later :=
  ⟨holding.distinct, fun pointer member => (holding.owned pointer member).congr same⟩

variable {command : Command β}

/-- A command that leaves the records alone keeps what the thread knows. -/
theorem keeps_observe (observes : command.observes = true) {property : Provider → Prop}
    (recorded : ∀ provider later : Provider, later.machines = provider.machines →
      property provider → property later) :
    (ownership builds).Keeps self property command (fun _ => property) := by
  rintro threads provider input after response job holds ⟨enough, sound⟩ running allowed executed
  obtain ⟨same, rfl⟩ := execute_observes observes executed
  refine ⟨⟨enough, sound.congr same⟩, ?_, by simp, recorded provider after same holds⟩
  intro other _ _ record details found owned
  rw [same]
  exact found

/-- A thread in charge of a machine may change it, as long as it stays sound. -/
theorem keeps_change (pointer : Pointer) (requested : Bool)
    (change : Nat → Details → Details) (started : Option Job) {pre post : Provider → Prop}
    (changes : ∀ fresh, command.change self fresh = some (pointer, change fresh, started))
    (owned : ∀ provider, pre provider → OwnedBy self pointer requested provider)
    (sound : ∀ fresh details, builds ≤ fresh → details.Sound builds →
      details.owners = [self] → details.requested = requested →
      (change fresh details).Sound builds)
    (kept : ∀ fresh details, (change fresh details).name = details.name ∧
      (change fresh details).listed = details.listed)
    (spawned : ∀ provider fresh details, pre provider →
      provider.machines[pointer.record]? = some details → details.owners = [self] →
      details.name = pointer.name → details.requested = requested →
      ∀ job ∈ started, Started job fresh (provider.modify pointer.record (change fresh)))
    (ends : ∀ provider fresh details, pre provider →
      provider.machines[pointer.record]? = some details →
      post (provider.modify pointer.record (change fresh))) :
    (ownership builds).Keeps self pre command (fun _ => post) := by
  rintro threads provider input after response job holds ⟨enough, invariant⟩ running allowed
    executed
  obtain ⟨rfl, rfl⟩ := execute_change (changes threads) executed
  obtain ⟨details, found, name, owners, same⟩ := owned provider holds
  have before := invariant.details details (mem_of_getElem? found)
  refine ⟨?_, ?_, ?_, ends provider threads details holds found⟩
  · refine ⟨by omega, invariant.modify found ?_ (kept threads details).1 ?_⟩
    · exact sound threads details enough before owners same
    · rw [(kept threads details).2]
      exact id
  · intro other _ different
    refine keepsOwned_modify found ?_ different
    intro thread only
    rw [owners] at only
    exact (List.cons.inj only).1.symm
  · exact spawned provider threads details holds found owners name same

theorem owners_handOver (owned : details.owners = [self])
    (fresh : Nat) : (details.handOver self fresh).owners = [fresh] := by
  simp [handOver, owned]

theorem holding_change (change : Details → Details)
    (changes : ∀ fresh, command.change self fresh = some (pointer, change, none))
    (busy : ∀ details, details.state ≠ .idle → details.state ≠ .removing →
      (change details).state ≠ .idle ∧ (change details).state ≠ .removing)
    (kept : ∀ details, (change details).name = details.name ∧
      (change details).listed = details.listed ∧
      (change details).owners = details.owners ∧
      (change details).requested = details.requested) (member : pointer ∈ held) :
    (ownership builds).Triple self (Holding self held) (call command)
      fun _ => Holding self held := by
  refine .call (Holding.stable self held)
    (keeps_change pointer false (fun _ => change) none changes ?_ ?_ ?_ ?_ ?_)
  · intro provider holding
    exact holding.owned pointer member
  · intro fresh details _ sound owned requested
    obtain ⟨isListed, notIdle, notRemoving⟩ := (sound_iff_busy owned requested).mp sound
    obtain ⟨-, listed, owners, same⟩ := kept details
    exact (sound_iff_busy (owners.trans owned) (same.trans requested)).mpr
      ⟨listed.trans isListed, busy details notIdle notRemoving⟩
  · intro fresh details
    exact ⟨(kept details).1, (kept details).2.1⟩
  · intro provider fresh details _ _ _ _ _ job started
    cases started
  · intro provider fresh details holding found
    obtain ⟨name, -, owners, requested⟩ := kept details
    exact holding.modify_held found name owners requested

theorem holding_write {state : MachineState} (notIdle : state ≠ .idle)
    (notRemoving : state ≠ .removing) (member : pointer ∈ held) :
    (ownership builds).Triple self (Holding self held) (call (.writeState pointer state))
      fun _ => Holding self held := by
  refine holding_change (write self state) (fun _ => rfl)
    (fun _ _ _ => ⟨notIdle, notRemoving⟩) ?_ member
  intro details
  exact ⟨rfl, rfl, by simp [write, notIdle], rfl⟩

theorem holding_write_idle :
    (ownership builds).Triple self (Holding self (pointer :: held))
      (call (.writeState pointer .idle)) fun _ => Holding self held := by
  refine .call (Holding.stable self _)
    (keeps_change pointer false (fun _ => write self .idle) none (fun _ => rfl)
      (fun _ holding => holding.of_cons.2.2) ?_ (fun _ _ => ⟨rfl, rfl⟩) ?_ ?_)
  · intro fresh details _ sound owned requested
    obtain ⟨listed, -⟩ := (sound_iff_busy owned requested).mp sound
    exact ⟨by simp [write, owned], requested, listed⟩
  · intro provider fresh details _ _ _ _ _ job started
    cases started
  · intro provider fresh details holding found
    exact holding.of_cons.1.modify_ne holding.of_cons.2.1

/-- A build hands a machine over to the goroutine that creates it. -/
theorem holding_startCreation :
    (ownership builds).Triple self (Holding self (pointer :: held))
      (call (.startCreation pointer)) fun _ => Holding self held := by
  refine .call (Holding.stable self _)
    (keeps_change pointer false (handOver self) (some (.creation pointer))
      (fun _ => rfl) (fun _ holding => holding.of_cons.2.2) ?_ (fun _ _ => ⟨rfl, rfl⟩) ?_ ?_)
  · intro fresh details _ sound owned requested
    have busy := (sound_iff_busy owned requested).mp sound
    exact (sound_iff_busy (owners_handOver owned fresh) requested).mpr busy
  · intro provider fresh details _ found owned name requested job started
    obtain rfl := some.inj started
    refine ⟨details.handOver self fresh, ?_, name, owners_handOver owned fresh, requested⟩
    simp [Provider.getElem?_modify, found]
  · intro provider fresh details holding found
    exact holding.of_cons.1.modify_ne holding.of_cons.2.1

/-- The removal of a machine that no other thread is in charge of. -/
theorem Provider.Sound.remove {threads record : Nat}
    (sound : provider.Sound builds) (enough : builds ≤ threads)
    (found : provider.machines[record]? = some details)
    (listed : details.listed = true) (free : details.owners.erase self = [])
    (reason : RemoveReason) :
    (provider.modify record (.remove self threads reason)).Sound builds ∧
      (∀ other, other ≠ self →
        KeepsOwned other provider (provider.modify record (.remove self threads reason))) ∧
      Started (.removal ⟨record, details.name⟩) threads
        (provider.modify record (.remove self threads reason)) := by
  have owners : (details.remove self threads reason).owners = [threads] := by
    simp [Details.remove, Details.handOver, free]
  refine ⟨?_, ?_, ?_⟩
  · exact Provider.Sound.modify sound found
      ((Details.sound_iff_removing owners rfl).mpr ⟨listed, rfl, enough⟩) rfl (fun _ => listed)
  · intro other different
    refine keepsOwned_modify found ?_ different
    intro thread only
    by_contra another
    simp [only, another] at free
  · exact ⟨details.remove self threads reason, by simp [getElem?_modify, found],
      rfl, owners, rfl⟩

theorem holding_remove (reason : RemoveReason) :
    (ownership builds).Triple self (Holding self (pointer :: held))
      (call (.remove pointer.name reason)) fun gone later =>
        (gone = false → Holding self (pointer :: held) later) ∧ Holding self held later := by
  refine .call (Holding.stable self _) ?_
  rintro threads provider input after response job holding ⟨enough, sound⟩ running allowed executed
  obtain ⟨rest, elsewhere, details, found, name, owned, requested⟩ := holding.of_cons
  obtain ⟨listed, -⟩ :=
    (sound_iff_busy owned requested).mp (sound.details details (mem_of_getElem? found))
  have entry : provider.find pointer.name = some pointer.record := by
    rw [← name]
    exact Provider.Unique.find sound.unique found listed
  rcases execute_remove executed with ⟨absent, -⟩ | ⟨record, present, rfl, rfl, rfl⟩
  · rw [entry] at absent
    cases absent
  · rw [entry, some.injEq] at present
    subst present
    have free : details.owners.erase self = [] := by simp [owned]
    obtain ⟨kept, others, spawned⟩ := sound.remove enough found listed free reason
    rw [name] at spawned
    refine ⟨⟨by omega, kept⟩, fun other _ => others other, ?_, (nomatch ·),
      rest.modify_ne elsewhere⟩
    intro started member
    obtain rfl := some.inj member
    exact spawned

theorem holding_remove_idle {name : String} {reason : RemoveReason}
    (ofUpdate : reason.ofUpdate = true) :
    (ownership builds).Triple self (Holding self held) (call (.remove name reason))
      fun _ => Holding self held := by
  refine .call (Holding.stable self _) ?_
  rintro threads provider input after response job holding ⟨enough, sound⟩ running allowed executed
  rcases execute_remove executed with ⟨-, rfl, rfl, rfl⟩ | ⟨record, present, rfl, rfl, rfl⟩
  · exact ⟨⟨enough, sound⟩, fun other _ _ _ _ found _ => found, by simp, holding⟩
  · obtain ⟨details, found, listed, rfl⟩ := find_eq_some present
    have state : details.state = .idle := by
      simpa [ownership, removesIdle, ofUpdate, present, found] using allowed
    obtain ⟨owners, -, -⟩ := (sound.details details (mem_of_getElem? found)).idle state
    have free : details.owners.erase self = [] := by simp [owners]
    obtain ⟨kept, others, spawned⟩ := sound.remove enough found listed free reason
    refine ⟨⟨by omega, kept⟩, fun other _ => others other, ?_, ?_⟩
    · intro started member
      obtain rfl := some.inj member
      exact spawned
    · exact holding.modify_ne (holding.not_mem found owners)

/-- `machineDetails` finds the record of a name or makes an idle one. -/
theorem Provider.Sound.lookup {name : String} {found : Provider} {record : Nat}
    (sound : provider.Sound builds) (looked : provider.lookup name = (found, record)) :
    found.Sound builds ∧ (∀ other, KeepsOwned other provider found) ∧
      (Holding self held provider → Holding self held found) ∧
      ∃ details, found.machines[record]? = some details ∧ details.name = name := by
  unfold Provider.lookup at looked
  split at looked
  · rename_i position present
    cases looked
    obtain ⟨details, position, -, name⟩ := Provider.find_eq_some present
    exact ⟨sound, fun _ _ _ found _ => found, id, details, position, name⟩
  · rename_i absent
    cases looked
    refine ⟨sound.add ⟨rfl, rfl, rfl⟩ absent, fun other => keepsOwned_add other _,
      fun holding => holding.add _, .new name, ?_, rfl⟩
    simp [Provider.add]

theorem holding_machineDetails (name : String) (acquire : Bool) :
    (ownership builds).Triple self (Holding self held) (call (.machineDetails name acquire))
      fun found later => (∀ pointer ∈ found, pointer.name = name) ∧
        Holding self ((if acquire then found else none).toList ++ held) later := by
  refine .call (Holding.stable self _) ?_
  rintro threads provider input after response job holding ⟨enough, sound⟩ running allowed executed
  obtain ⟨rfl, found, record, looked, cases⟩ := execute_machineDetails executed
  obtain ⟨kept, others, keeps, details, position, same⟩ :=
    sound.lookup looked
  have holdingFound := keeps holding
  rcases cases with ⟨rfl, rfl, rfl, -⟩ | ⟨rfl, rfl, rfl, free⟩ | ⟨rfl, rfl, rfl⟩
  · exact ⟨⟨enough, kept⟩, fun other _ _ => others other, by simp, by simp, holdingFound⟩
  · have state : details.state = .idle := by simpa [position, Details.isUsed] using free
    obtain ⟨owners, requested, listed⟩ :=
      (kept.details details (mem_of_getElem? position)).idle state
    have taken : (details.take self).owners = [self] := by simp [Details.take, owners]
    have new := holdingFound.not_mem position owners
    refine ⟨⟨enough, kept.modify position ?_ rfl (fun _ => listed)⟩, ?_, by simp, by simp, ?_⟩
    · exact (Details.sound_iff_busy taken requested).mpr
        ⟨listed, by simp [Details.take], by simp [Details.take]⟩
    · intro other _ different
      have free : ∀ thread, details.owners = [thread] → thread = self := by simp [owners]
      exact (ownership builds).rely_trans other _ _ _ (others other)
        (keepsOwned_modify position free different)
    · refine (holdingFound.modify_ne new).cons new ?_
      exact ⟨details.take self, by simp [Provider.getElem?_modify, position], same, taken,
        requested⟩
  · exact ⟨⟨enough, kept⟩, fun other _ _ => others other, by simp, by simp, holdingFound⟩

theorem holding_newMachine (state : MachineState) :
    (ownership builds).Triple self (Holding self held) (call (.newMachine state))
      fun pointer => Holding self (pointer :: held) := by
  refine .call (Holding.stable self _) ?_
  rintro threads provider input after response job holding ⟨enough, sound⟩ running allowed executed
  obtain ⟨rfl, name, absent, rfl, rfl⟩ := execute_newMachine executed
  refine ⟨⟨enough, sound.add ?_ absent⟩, fun other _ _ => keepsOwned_add other _,
    by simp, ?_⟩
  · exact ⟨rfl, rfl, self, rfl⟩
  · refine (holding.add _).cons ?_ ?_
    · intro member
      obtain ⟨pointer, isHeld, same⟩ := mem_map.mp member
      obtain ⟨details, found, -⟩ := holding.owned pointer isHeld
      have bound := (List.getElem?_eq_some_iff.mp found).1
      simp only at same
      omega
    · exact ⟨{ new name with state := .acquired, owners := [self] },
        by simp [add], rfl, rfl, rfl⟩

theorem triple_observe_owned (observes : command.observes = true) :
    (ownership builds).Triple self (OwnedBy self pointer requested) (call command)
      fun _ => OwnedBy self pointer requested :=
  .call (OwnedBy.stable self pointer requested)
    (keeps_observe observes fun _ _ same owned => owned.congr same)

theorem triple_addRetry_removal :
    (ownership builds).Triple self (OwnedBy self pointer true) (call (.addRetry pointer))
      fun _ => OwnedBy self pointer true := by
  refine .call (OwnedBy.stable self pointer true) (keeps_change pointer true
      (fun _ found => { found with retryCount := found.retryCount + 1 }) none
      (fun _ => rfl) (fun _ => id) ?_ (fun _ _ => ⟨rfl, rfl⟩) ?_ ?_)
  · intro fresh details noBuild sound owned leaving
    have removing := (sound_iff_removing owned leaving).mp sound
    exact (sound_iff_removing owned leaving).mpr removing
  · intro provider fresh details _ _ _ _ _ job started
    cases started
  · rintro provider fresh details ⟨other, position, rest⟩ found
    rw [found, some.injEq] at position
    subst position
    refine ⟨{ details with retryCount := details.retryCount + 1 }, ?_, rest⟩
    simp [Provider.getElem?_modify, found]

theorem triple_retryRemoval :
    (ownership builds).Triple self (OwnedBy self pointer true) (call (.retryRemoval pointer))
      fun _ _ => True := by
  refine .call (OwnedBy.stable self pointer true)
    (keeps_change pointer true (handOver self) (some (.removal pointer))
      (fun _ => rfl) (fun _ => id) ?_ (fun _ _ => ⟨rfl, rfl⟩) ?_ fun _ _ _ _ _ => trivial)
  · intro fresh details noBuild sound owned leaving
    obtain ⟨listed, state, -⟩ := (sound_iff_removing owned leaving).mp sound
    exact (sound_iff_removing (owners_handOver owned fresh) leaving).mpr
      ⟨listed, state, noBuild⟩
  · intro provider fresh details _ found owned name leaving job started
    obtain rfl := some.inj started
    exact ⟨details.handOver self fresh, by simp [Provider.getElem?_modify, found], name,
      owners_handOver owned fresh, leaving⟩

theorem triple_deleteDetails :
    (ownership builds).Triple self (OwnedBy self pointer true) (call (.deleteDetails pointer))
      fun _ _ => True := by
  refine .call (OwnedBy.stable self pointer true) ?_
  rintro threads provider input after response job owned ⟨enough, sound⟩ running allowed executed
  obtain ⟨details, found, name, owners, leaving⟩ := owned
  obtain ⟨listed, state, -⟩ :=
    (sound_iff_removing owners leaving).mp (sound.details details (mem_of_getElem? found))
  have entry := Provider.Unique.find sound.unique found listed
  rw [name] at entry
  obtain ⟨rfl, ⟨absent, -⟩ | ⟨record, present, rfl⟩⟩ := execute_deleteDetails executed
  · rw [entry] at absent
    cases absent
  · rw [entry, some.injEq] at present
    subst present
    refine ⟨⟨enough, sound.modify found ?_ rfl (fun _ => listed)⟩, ?_,
      by simp, trivial⟩
    · simp only [Details.Sound, state]
      exact ⟨leaving, .inr ⟨by simp [owners], trivial⟩⟩
    · intro other _ different
      refine keepsOwned_modify found ?_ different
      intro thread only
      rw [owners] at only
      exact (List.cons.inj only).1.symm

end Commands

section Programs

variable {self : Nat} {provider : Provider} {held : List Pointer} {pointer : Pointer}

theorem removeMachine_safe :
    (ownership builds).Triple self (OwnedBy self pointer true) (removeMachine pointer)
      fun _ => OwnedBy self pointer true := by
  refine .bind (triple_observe_owned rfl) fun found => ?_
  cases found with
  | false => exact fun _ owned => owned
  | true =>
    refine .bind (triple_observe_owned rfl) fun _ => ?_
    refine .bind (triple_observe_owned rfl) fun gone => ?_
    cases gone with
    | true => exact fun _ owned => owned
    | false => exact .bind triple_addRetry_removal fun _ _ owned => owned

theorem finalizeRemoval_safe :
    (ownership builds).Triple self (OwnedBy self pointer true) (finalizeRemoval pointer)
      fun _ _ => True := by
  refine .bind removeMachine_safe fun gone => ?_
  cases gone with
  | true => exact triple_deleteDetails
  | false => exact triple_retryRemoval

theorem ownership_rules (builds self : Nat) :
    Rules (ownership builds) self (Holding self)
      (fun pointer held => Holding self (pointer :: held)) where
  observe observes := .call (Holding.stable self _)
    (keeps_observe observes fun _ _ same holding => holding.congr same)
  machineDetails name acquire _ := holding_machineDetails name acquire
  newMachine state _ := holding_newMachine state
  writeCreating := holding_write (by decide) (by decide) (by simp)
  resetCounts := holding_change _ (fun _ => rfl) (fun _ => And.intro)
    (fun _ => ⟨rfl, rfl, rfl, rfl⟩) (by simp)
  startCreation := holding_startCreation
  keep := id
  addRetry := holding_change _ (fun _ => rfl) (fun _ => And.intro) fun _ => ⟨rfl, rfl, rfl, rfl⟩
  addUse := holding_change _ (fun _ => rfl) (fun _ => And.intro) fun _ => ⟨rfl, rfl, rfl, rfl⟩
  write := by rintro _ _ _ (rfl | rfl) <;> exact holding_write (by decide) (by decide)
  writeIdle := holding_write_idle
  remove reason _ := holding_remove reason
  removeIdle := holding_remove_idle

theorem body_safe (job : Job) (started : Started job self provider) :
    (ownership builds).Safe self (fun _ _ => True) (body job) provider := by
  cases job with
  | creation pointer =>
    have holding : Holding self [pointer] provider := by
      refine ⟨by simp, ?_⟩
      intro other member
      rw [mem_singleton.mp member]
      exact started
    have finish : (ownership builds).Triple self (Holding self [pointer])
        (Program.call (.writeState pointer .idle)) fun _ => Holding self ([] ++ []) :=
      holding_write_idle
    exact ((ownership_rules builds self).lending.createMachine finish _ holding).bind
      fun _ _ _ => trivial
  | removal pointer => exact finalizeRemoval_safe _ started

end Programs

theorem build_safe {self : Nat} (config : RunnerConfig) (calls : List Call) (held : List Pointer) :
    (ownership builds).Triple self (Holding self held) (build config calls held)
      fun _ _ => True := by
  induction calls generalizing held with
  | nil => exact fun _ _ => trivial
  | cons first calls ih =>
    cases first with
    | acquire => exact .bind ((ownership_rules builds self).lending.acquire config) fun _ => ih _
    | use data =>
      exact .bind ((ownership_rules builds self).use config _ (mem_of_held data)) fun _ => ih _
    | release data =>
      exact .bind (.weaken ((ownership_rules builds self).release config held[data]?)
        fun _ holding => holding.perm (perm_getElem?_eraseIdx held data)) fun _ => ih _

theorem startBuilds_safe (builds : List (RunnerConfig × List Call)) :
    (startBuilds builds).Safe (ownership builds.length) (fun _ _ => True) := by
  refine ⟨⟨by simp [startBuilds], by simp [startBuilds, start],
    by simp [startBuilds, start]⟩, ?_⟩
  intro index program position
  obtain ⟨⟨config, calls⟩, -, rfl⟩ := mem_map.mp (mem_of_getElem? position)
  exact build_safe config calls [] _ ⟨by simp, by simp⟩

/-- The ownership of a machine: a build that has taken it and not released it is
alone in charge of it and nobody has requested its removal, and after such a
request the machine is never idle, acquired or used. -/
def Details.Owned (builds : Nat) (details : Details) : Prop :=
  (∀ build < builds, build ∈ details.owners →
    details.owners = [build] ∧ details.requested = false) ∧
  (details.requested = true → details.state = .removing)

theorem Details.Sound.owned (sound : details.Sound builds) : details.Owned builds := by
  refine ⟨?_, sound.removing⟩
  intro build isBuild member
  have one : ∃ thread, details.owners = [thread] := by
    unfold Details.Sound at sound
    split at sound
    · rw [sound.1] at member
      cases member
    · rcases sound.2 with ⟨⟨thread, owners, -⟩, -⟩ | ⟨none, -⟩
      · exact ⟨thread, owners⟩
      · rw [none] at member
        cases member
    · exact sound.2.2
  obtain ⟨thread, owners⟩ := one
  rw [owners, mem_singleton] at member
  subst member
  refine ⟨owners, ?_⟩
  cases requested : details.requested with
  | false => rfl
  | true =>
    obtain ⟨-, -, noBuild⟩ := (sound_iff_removing owners requested).mp sound
    exact absurd noBuild (Nat.not_le.mpr isBuild)

/-- Along every run of any number of builds in which the removals of
`updateMachines` find an idle machine, every machine has its owner to itself. -/
theorem machines_owned {builds : List (RunnerConfig × List Call)}
    {actions : List (Nat × Input)} {pool : Pool Provider Command}
    (meets : MeetsAlong (Pool.step semantics)
      (fun pool action => pool.meets removesIdle action = true) (startBuilds builds) actions)
    (reached : run (Pool.step semantics) (startBuilds builds) actions = some pool) :
    ∀ details ∈ pool.state.machines, details.Owned builds.length := by
  intro details member
  have safe := (startBuilds_safe builds).run (fun _ _ _ _ _ => trivial)
    (fun job index provider => body_safe job) meets reached
  exact (safe.invariant.2.details details member).owned

def oneBuildConfig : RunnerConfig where
  limit := 0
  machineName := "machine-%s"
  maxBuilds := 1
  idleCount := 0
  offPeakIdleCount := 0
  matchesFilter _ := true

def useActions : List (Nat × Input) :=
  [(0, .names (some ["a"])), (0, .nothing), (0, .answer true), (0, .answer true),
    (0, .nothing), (0, .nothing)]

theorem machines_owned_use :
    ∃ pool, run (Pool.step semantics)
        (startBuilds [(oneBuildConfig, [.use none])]) useActions = some pool ∧
      pool.state.machines.map Details.owners = [[0]] ∧
      ∀ details ∈ pool.state.machines, details.Owned 1 := by
  have owners : (run (Pool.step semantics)
      (startBuilds [(oneBuildConfig, [.use none])]) useActions).map
        (fun pool => pool.state.machines.map Details.owners) = some [[0]] := by decide
  obtain ⟨pool, reached, same⟩ := map_eq_some_iff.mp owners
  exact ⟨pool, reached, same, machines_owned (by decide) reached⟩

/-- One build looks at an idle machine that has to go, another build takes the
machine, and then the first one removes it. -/
def staleRemovalActions : List (Nat × Input) :=
  [(0, .nothing), (0, .names (some ["a"])), (0, .nothing), (0, .nothing), (0, .nothing),
    (1, .names (some ["a"])), (1, .nothing), (0, .nothing)]

/-- The provider can remove a machine that a build has taken. -/
theorem machine_removed_in_use :
    ¬∀ (builds : List (RunnerConfig × List Call)) (actions : List (Nat × Input))
      (pool : Pool Provider Command),
      run (Pool.step semantics) (startBuilds builds) actions = some pool →
        ∀ details ∈ pool.state.machines, details.Owned builds.length := by
  intro owned
  have machines : (run (Pool.step semantics)
      (startBuilds [(oneBuildConfig, [.acquire]), (oneBuildConfig, [.use none])])
      staleRemovalActions).map (fun pool => pool.state.machines) =
        some [{ name := "a"
                usedCount := 1
                state := .removing
                reason := "Too many builds"
                retryCount := 0
                listed := true
                owners := [1, 2]
                takers := [1]
                requested := true }] := by decide
  obtain ⟨pool, reached, same⟩ := map_eq_some_iff.mp machines
  have broken := (owned _ _ pool reached _ (same ▸ mem_singleton_self _)).1 1
    (by decide) (by decide)
  exact absurd broken.2 (by decide)

end GitlabRunner.Machine
