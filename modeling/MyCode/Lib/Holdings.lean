import Mathlib.Logic.Function.Basic

/-!
# Resources with one holder each

Owners lease resources for some time, or have them signed to them for good; a pool knows
which resources are busy.
-/

namespace MyCode.Lib

open Function

universe u v

structure Holdings (Owner : Type u) (Resource : Type v) where
  leased : Owner → Option Resource
  signed : Owner → Option Resource
  busy : Resource → Prop

namespace Holdings

variable {Owner : Type u} {Resource : Type v} {before after : Holdings Owner Resource}
  {owner : Owner} {resource : Resource}

/-- Nobody leases or is signed what another one holds, and the pool knows of all of it. -/
structure Exclusive (holdings : Holdings Owner Resource) : Prop where
  leasedOnce : ∀ owner other resource, holdings.leased owner = some resource →
    holdings.leased other = some resource → owner = other
  signedOnce : ∀ owner other resource, holdings.signed owner = some resource →
    holdings.signed other = some resource → owner = other
  apart : ∀ owner other resource, holdings.leased owner = some resource →
    holdings.signed other = some resource → owner = other
  leasedBusy : ∀ owner resource, holdings.leased owner = some resource → holdings.busy resource
  signedBusy : ∀ owner resource, holdings.signed owner = some resource → holdings.busy resource

theorem Exclusive.of_nothing (leased : ∀ owner, before.leased owner = none)
    (signed : ∀ owner, before.signed owner = none) : before.Exclusive := by
  constructor
  · intro owner other resource held
    cases (leased owner).symm.trans held
  · intro owner other resource held
    cases (signed owner).symm.trans held
  · intro owner other resource held
    cases (leased owner).symm.trans held
  · intro owner resource held
    cases (leased owner).symm.trans held
  · intro owner resource held
    cases (signed owner).symm.trans held

def Held (holdings : Holdings Owner Resource) (resource : Resource) : Prop :=
  (∃ owner, holdings.leased owner = some resource) ∨ ∃ owner, holdings.signed owner = some resource

theorem Exclusive.shrink (exclusive : before.Exclusive)
    (leased : ∀ owner resource, after.leased owner = some resource →
      before.leased owner = some resource)
    (signed : ∀ owner resource, after.signed owner = some resource →
      before.signed owner = some resource)
    (busy : ∀ resource, after.Held resource → before.busy resource → after.busy resource) :
    after.Exclusive where
  leasedOnce owner other resource first second :=
    exclusive.leasedOnce owner other resource (leased owner resource first)
      (leased other resource second)
  signedOnce owner other resource first second :=
    exclusive.signedOnce owner other resource (signed owner resource first)
      (signed other resource second)
  apart owner other resource first second :=
    exclusive.apart owner other resource (leased owner resource first)
      (signed other resource second)
  leasedBusy owner resource held :=
    busy resource (.inl ⟨owner, held⟩) (exclusive.leasedBusy owner resource (leased owner resource held))
  signedBusy owner resource held :=
    busy resource (.inr ⟨owner, held⟩) (exclusive.signedBusy owner resource (signed owner resource held))

variable [DecidableEq Owner]

theorem update_eq_some {held : Owner → Option Resource} {other : Owner} {found : Resource}
    (isHeld : update held owner (some resource) other = some found) :
    other = owner ∧ found = resource ∨ other ≠ owner ∧ held other = some found := by
  by_cases same : other = owner
  · rw [same, update_self] at isHeld
    exact .inl ⟨same, (Option.some.inj isHeld).symm⟩
  · rw [update_of_ne same] at isHeld
    exact .inr ⟨same, isHeld⟩

/-- What is leased for what is signed. -/
def swap (holdings : Holdings Owner Resource) : Holdings Owner Resource :=
  ⟨holdings.signed, holdings.leased, holdings.busy⟩

omit [DecidableEq Owner] in
theorem Exclusive.swap (exclusive : before.Exclusive) : before.swap.Exclusive where
  leasedOnce := exclusive.signedOnce
  signedOnce := exclusive.leasedOnce
  apart _ _ resource isFirst isSecond := (exclusive.apart _ _ resource isSecond isFirst).symm
  leasedBusy := exclusive.signedBusy
  signedBusy := exclusive.leasedBusy

/-- An owner leases a resource that nobody else holds. -/
theorem Exclusive.lease (exclusive : before.Exclusive)
    (unleased : ∀ other, before.leased other = some resource → other = owner)
    (unsigned : ∀ other, before.signed other = some resource → other = owner)
    (leased : after.leased = update before.leased owner (some resource))
    (signed : after.signed = before.signed)
    (busy : ∀ resource, before.busy resource → after.busy resource) (taken : after.busy resource) :
    after.Exclusive := by
  constructor
  · intro first second found isFirst isSecond
    rw [leased] at isFirst isSecond
    rcases update_eq_some isFirst with ⟨rfl, rfl⟩ | ⟨-, heldFirst⟩
    · rcases update_eq_some isSecond with ⟨rfl, -⟩ | ⟨-, heldSecond⟩
      · rfl
      · exact (unleased second heldSecond).symm
    · rcases update_eq_some isSecond with ⟨rfl, rfl⟩ | ⟨-, heldSecond⟩
      · exact unleased first heldFirst
      · exact exclusive.leasedOnce first second found heldFirst heldSecond
  · rw [signed]
    exact exclusive.signedOnce
  · intro first second found isFirst isSecond
    rw [leased] at isFirst
    rw [signed] at isSecond
    rcases update_eq_some isFirst with ⟨rfl, rfl⟩ | ⟨-, heldFirst⟩
    · exact (unsigned second isSecond).symm
    · exact exclusive.apart first second found heldFirst isSecond
  · intro first found isFirst
    rw [leased] at isFirst
    rcases update_eq_some isFirst with ⟨-, rfl⟩ | ⟨-, heldFirst⟩
    · exact taken
    · exact busy found (exclusive.leasedBusy first found heldFirst)
  · intro first found isFirst
    rw [signed] at isFirst
    exact busy found (exclusive.signedBusy first found isFirst)

theorem Exclusive.sign (exclusive : before.Exclusive)
    (unleased : ∀ other, before.leased other = some resource → other = owner)
    (unsigned : ∀ other, before.signed other = some resource → other = owner)
    (leased : after.leased = before.leased)
    (signed : after.signed = update before.signed owner (some resource))
    (busy : ∀ resource, before.busy resource → after.busy resource) (taken : after.busy resource) :
    after.Exclusive :=
  (@Exclusive.lease _ _ _ after.swap _ _ _ exclusive.swap unsigned unleased signed leased busy
    taken).swap

end Holdings

end MyCode.Lib
