/-
  TaskFleet.Proofs.Dispatch.OwnRow — what an attempt leaves of the rows, when nobody else
  writes to them.

  - `OneRow`: only one task's row may differ, and what is known of it.
  - `RowLeft`: a task that was started runs without a lease, and any other outcome leaves the task in
    the status in which it was chosen; a crash writes to no other row.
  - `rows_dispatchTask`: the whole of an attempt on one task.
-/

import TaskFleet.Proofs.Dispatch.Exits

namespace TaskFleet.Dispatch

open Fallible Program Store

variable {cfg : Settings} {process n : Nat} {R T : World → World → Prop} {w w' : World} {t u : Task} {s s' s'' : Store}
  {P Q : Task → Prop} {r : Except String DispatchOutcome}

/-! ## One row -/

/-- The rows differ at most in that of the task, which is there and of a kind. -/
structure OneRow (t : Task) (P : Task → Prop) (s s' : Store) : Prop where
  keyed : s'.Keyed
  others : ∀ u, u.id ≠ t.id → (s'.Holds u ↔ s.Holds u)
  own : ∃ t', s'.Holds t' ∧ t'.id = t.id ∧ P t'

theorem OneRow.mono (h : OneRow t P s s') (hle : ∀ t', P t' → Q t') : OneRow t Q s s' :=
  ⟨h.keyed, h.others, h.own.imp fun _ ht => ⟨ht.1, ht.2.1, hle _ ht.2.2⟩⟩

theorem OneRow.any (h : OneRow t P s s') : OneRow t (fun _ => True) s s' := h.mono fun _ _ => trivial

theorem oneRow_of_rowIs (hs : s.Keyed) (h : RowIs u s s') (hid : u.id = t.id) (hP : P u) : OneRow t P s s' where
  keyed := fun k row hk => by
    by_cases hku : k = u.key
    · have hrow : s'.tasks.get? u.key = some (.record u) := h.row
      rw [hku, hrow] at hk
      cases hk
      exact ⟨u, rfl, hku⟩
    · exact hs k row (h.rows k hku ▸ hk)
  others := fun v hv => by
    have hne : v.key ≠ u.key := fun hk => hv ((taskKey_inj.1 hk).trans hid)
    unfold Holds
    rw [h.rows v.key hne]
  own := ⟨u, h.row, hid, hP⟩

/-! ## What is left of the rows -/

/-- The row of a started task: it runs, and nobody has a lease on it. -/
structure OnItsWay (t' : Task) : Prop where
  running : t'.status = .running
  lease : t'.lease = none

/-- What an attempt leaves of the rows, by its outcome. -/
def RowLeft (t : Task) (s s' : Store) : Except String DispatchOutcome → Prop
  | .error _ => OneRow t (fun _ => True) s s'
  | .ok (.started _ _) => OneRow t OnItsWay s s'
  | .ok _ => OneRow t (fun t' => t'.status = t.status) s s'

theorem RowLeft.any (h : RowLeft t s s' r) : OneRow t (fun _ => True) s s' := by
  match r, h with
  | .error _, h => exact h
  | .ok (.started _ _), h => exact OneRow.any h
  | .ok .idle, h => exact OneRow.any h
  | .ok (.skipped _), h => exact OneRow.any h
  | .ok (.retry _ _ _), h => exact OneRow.any h

/-- The row of a task whose claim is settled. -/
theorem onItsWay_settle (agent : Option String) (now : UInt64) : OnItsWay ((claimedRow cfg t agent now).settle cfg.holder) where
  running := rfl
  lease := by
    show (if (claimRequest cfg t now).lease?.any (·.holder == cfg.holder) then none else (claimRequest cfg t now).lease?) = none
    cases hlease : (claimRequest cfg t now).lease? with
    | none => rfl
    | some lease => exact if_pos (beq_iff_eq.2 (holder_of_lease? hlease))

theorem Exits.rowLeft (hR : ∀ w w', R w w' → SameRows w w') (hs : w.store.Keyed) (h : Exits R T cfg t w w' r) :
    RowLeft t w.store w'.store r := by
  cases h with
  | crashed hid hrow => exact oneRow_of_rowIs hs hrow.row hid trivial
  | ended hover hrow =>
    cases hover with
    | skipped => exact oneRow_of_rowIs hs hrow.row rfl rfl
    | started agent now => exact oneRow_of_rowIs hs hrow.row rfl (onItsWay_settle agent now)
  | again hagain hrow _ hlast =>
    refine oneRow_of_rowIs hs (hrow.row.congr (hR _ _ hlast :)) hagain.id ?_
    cases hagain <;> rfl

/-- An attempt on one task writes to no row but the task's. -/
theorem rows_dispatchTask [IsPreorder World R] (hR : ∀ w w', R w w' → SameRows w w') (hs : w.store.Keyed)
    (ht : w.store.Holds t) {r : Except String (Except DispatchError DispatchOutcome)}
    (he : Ends R n (dispatchTask cfg process t).run w r w') :
    (∃ e, r = .ok (.error e) ∧ SameRows w w') ∨ ∃ r', r = r'.map .ok ∧ RowLeft t w.store w'.store r' := by
  have hspares : ∀ w w', R w w' → Spares Anyhow w w' := fun w w' h => ⟨hR w w' h, trivial⟩
  rcases exits_dispatchTaskBy hspares blind_anyhow (Agent.onlyAgents_sendTask process) ht he with
    ⟨e, hr, hw'⟩ | ⟨r', hr, hexits⟩
  · exact .inl ⟨e, hr, hw'.1⟩
  · exact .inr ⟨r', hr, hexits.rowLeft hR hs⟩

end TaskFleet.Dispatch
