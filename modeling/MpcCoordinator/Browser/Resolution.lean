import MpcCoordinator.Browser.Authentication

namespace MpcCoordinator

namespace CoordinatorListener

variable {listener : CoordinatorListener} {d : CoordinatorExecutionState} {request : BindWebauthnIdentity}
  {order scanOrder : List ClientIdentity} {c : ClientIdentity}

/-- A coordinator whose catalog of credentials is empty: it scans the roster
for every ceremony. -/
def scanning (listener : CoordinatorListener) : CoordinatorListener :=
  { listener with credentialIdIndex := Table.empty }

theorem isSome_scanCandidates : (listener.scanCandidates order request).isSome = true ↔
    ∃ c ∈ order, (listener.verifyBind request c).isSome = true := by
  simp only [scanCandidates, List.isSome_findSome?, List.any_eq_true, Option.isSome_map]

/-- The catalog only adds a shortcut: a ceremony is resolved iff its assertion
verifies under some identity of the roster. -/
theorem resolveIdentity_iff (listed : order.toFinset = d.candidates) :
    (∃ found, listener.resolveIdentity d request order = .ok found) ↔
      ∃ c, d.Admitted c ∧ (listener.verifyBind request c).isSome = true := by
  constructor
  · rintro ⟨⟨c, signCount⟩, resolved⟩
    obtain ⟨admitted, verified⟩ := resolveIdentity_ok listed resolved
    exact ⟨c, admitted, by rw [verified]; rfl⟩
  · rintro ⟨c, admitted, verified⟩
    have member : c ∈ order := by
      rw [← List.mem_toFinset, listed]
      exact CoordinatorExecutionState.mem_candidates.mpr admitted
    -- whatever the catalog says, the scan that it falls back to finds someone
    have scanned : (listener.scanCandidates order request).isSome = true :=
      isSome_scanCandidates.mpr ⟨c, member, verified⟩
    obtain ⟨found, matched⟩ : ∃ found, (listener.indexedMatch d.candidates request).or
        (listener.scanCandidates order request) = some found :=
      Option.isSome_iff_exists.mp (by rw [Option.isSome_or, scanned, Bool.or_true])
    exact ⟨found, by simp only [resolveIdentity, matched]⟩

/-- The only identity of the roster that verifies is the one that is found. -/
theorem resolveIdentity_of_unique (listed : order.toFinset = d.candidates) {signCount : UInt32} (admitted : d.Admitted c)
    (verified : listener.verifyBind request c = some signCount)
    (only : ∀ other, d.Admitted other → (listener.verifyBind request other).isSome = true → other = c) :
    listener.resolveIdentity d request order = .ok (c, signCount) := by
  obtain ⟨⟨found, count⟩, resolved⟩ := (resolveIdentity_iff listed).mpr ⟨c, admitted, by rw [verified]; rfl⟩
  obtain ⟨rostered, verifies⟩ := resolveIdentity_ok listed resolved
  obtain rfl := only found rostered (by rw [verifies]; rfl)
  obtain rfl := Option.some.inj (verified.symm.trans verifies)
  exact resolved

/-- Whatever the catalog holds, it changes neither whether a ceremony is
resolved nor, if one identity of the roster verifies, how. -/
theorem indexed_resolution_agrees_with_scan (listener : CoordinatorListener) (d : CoordinatorExecutionState)
    (request : BindWebauthnIdentity) (listed : order.toFinset = d.candidates) (scanned : scanOrder.toFinset = d.candidates) :
    ((∃ found, listener.resolveIdentity d request order = .ok found) ↔
      ∃ found, listener.scanning.resolveIdentity d request scanOrder = .ok found) ∧
    ((∃ found, listener.resolveIdentity d request order = .ok found) ↔
      ∃ c, d.Admitted c ∧ (listener.verifyBind request c).isSome = true) ∧
    (∀ c signCount, listener.resolveIdentity d request order = .ok (c, signCount) ∨
      listener.scanning.resolveIdentity d request scanOrder = .ok (c, signCount) →
      d.Admitted c ∧ listener.verifyBind request c = some signCount) ∧
    ((∃! c, d.Admitted c ∧ (listener.verifyBind request c).isSome = true) → ∃ found,
      listener.resolveIdentity d request order = .ok found ∧
        listener.scanning.resolveIdentity d request scanOrder = .ok found) := by
  have indexed : (∃ found, listener.resolveIdentity d request order = .ok found) ↔
      ∃ c, d.Admitted c ∧ (listener.verifyBind request c).isSome = true := resolveIdentity_iff listed
  have unindexed : (∃ found, listener.scanning.resolveIdentity d request scanOrder = .ok found) ↔
      ∃ c, d.Admitted c ∧ (listener.verifyBind request c).isSome = true := resolveIdentity_iff scanned
  refine ⟨indexed.trans unindexed.symm, indexed, ?_, ?_⟩
  · rintro c signCount (resolved | resolved)
    · exact resolveIdentity_ok listed resolved
    · exact @resolveIdentity_ok listener.scanning _ _ _ _ _ scanned resolved
  · rintro ⟨c, ⟨admitted, verifies⟩, only⟩
    obtain ⟨signCount, verified⟩ := Option.isSome_iff_exists.mp verifies
    have only : ∀ other, d.Admitted other → (listener.verifyBind request other).isSome = true → other = c :=
      fun other rostered verifies => only other ⟨rostered, verifies⟩
    exact ⟨(c, signCount), resolveIdentity_of_unique listed admitted verified only,
      resolveIdentity_of_unique scanned admitted verified only⟩

section Ceremonies

open Scenario

/-- A catalog that names a key off the roster for the client's credential. -/
def miscataloged : CoordinatorListener :=
  { CoordinatorListener.recorded with credentialIdIndex := Table.empty.insert [9] requestKey }

/-- The ceremony of a client whose credential the catalog has wrong is resolved. -/
theorem indexed_resolution_agrees_with_scan_of_miscataloged :
    miscataloged.indexedMatch (CoordinatorExecutionState.fresh .assigned).candidates { bindA with credentialId := [9] } =
        none ∧
      ∃ found, miscataloged.resolveIdentity (.fresh .assigned) { bindA with credentialId := [9] } [client] = .ok found ∧
        (CoordinatorExecutionState.fresh .assigned).Admitted found.1 := by
  have listed : [client].toFinset = (CoordinatorExecutionState.fresh .assigned).candidates := by decide +kernel
  have agrees := indexed_resolution_agrees_with_scan miscataloged _ { bindA with credentialId := [9] } listed listed
  refine ⟨by decide +kernel, ?_⟩
  obtain ⟨⟨c, signCount⟩, resolved⟩ := agrees.2.1.mpr ⟨client, CoordinatorExecutionState.mem_candidates.mp
    (by decide +kernel), by decide +kernel⟩
  exact ⟨(c, signCount), resolved, (agrees.2.2.1 c signCount (.inl resolved)).1⟩

end Ceremonies

end CoordinatorListener

end MpcCoordinator
