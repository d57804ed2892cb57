import Codex.ExecServer.SessionRegistry
import Codex.Foundation.Run

/-!
# Who is attached to a session

What a call of `attach` has found under the lock stays true until it gives the lock up, so
that no connection loses its session to another one. The notification sender has no such
protection: a `detach` clears it after it has let go of the session, when another connection
may have installed its own.
-/

namespace Codex.ExecServer

open Foundation Function Option

def ConnectionPhase.resuming : ConnectionPhase → Option Text
  | .checkingExpired sessionId => some sessionId
  | .removing sessionId => some sessionId
  | .checkingActive sessionId => some sessionId
  | .installing sessionId => some sessionId
  | .attaching sessionId => some sessionId
  | _ => none

def ConnectionPhase.claiming : ConnectionPhase → Option Text
  | .removing sessionId => some sessionId
  | .installing sessionId => some sessionId
  | .attaching sessionId => some sessionId
  | _ => none

theorem ConnectionPhase.resuming_of_claiming {phase : ConnectionPhase} {id : Text}
    (h : phase.claiming = some id) : phase.resuming = some id := by
  cases phase <;> first | exact h | cases h

def ConnectionPhase.disposing : ConnectionPhase → Option Text
  | .shuttingDown sessionId => some sessionId
  | _ => none

def ConnectionPhase.attachedTo : ConnectionPhase → Option Text
  | .attached sessionId => some sessionId
  | _ => none

def ExpiryPhase.claiming : ExpiryPhase → Option Text
  | .removing sessionId => some sessionId
  | _ => none

def ExpiryPhase.disposing : ExpiryPhase → Option Text
  | .shuttingDown sessionId => some sessionId
  | _ => none

def SessionAction.connection : SessionAction → Option ConnectionId
  | .elapse _ => none
  | .call connection _ => some connection
  | .create connection _ => some connection
  | .attach connection => some connection
  | .cancel connection => some connection
  | .detach connection => some connection
  | .finishDetach connection => some connection
  | .expire _ => none

namespace SessionRegistry

variable {r r' : SessionRegistry}

def holder (r : SessionRegistry) (sessionId : Text) : Option ConnectionId :=
  (r.entries sessionId).attachment.currentConnectionId

structure Inv (r : SessionRegistry) : Prop where
  resuming : ∀ k id, (r.phases k).resuming = some id → r.lock = some (.attach k) ∧ id ∈ r.sessions
  claiming : ∀ k id, (r.phases k).claiming = some id → r.holder id = none
  expiring : ∀ k id, (r.expiries k).claiming = some id →
    r.lock = some (.expire k) ∧ r.holder id = none ∧ id ∈ r.sessions
  disposing : ∀ k id,
    (r.phases k).disposing = some id ∨ (r.expiries k).disposing = some id →
      id ∈ r.created ∧ id ∉ r.sessions
  attached : ∀ k id, (r.phases k).attachedTo = some id → r.holder id = some k
  held : ∀ k id, r.holder id = some k →
    (r.phases k).attachedTo = some id ∧ (r.entries id).attachment.detachedExpiresAt = none ∧
      id ∈ r.sessions
  down : ∀ id, (r.entries id).shutDown = true → id ∉ r.sessions
  registered : r.sessions ⊆ r.created

theorem inv_new : new.Inv where
  resuming := fun k id h => by cases h
  claiming := fun k id h => by cases h
  expiring := fun k id h => by cases h
  disposing := fun k id h => by rcases h with h | h <;> cases h
  attached := fun k id h => by cases h
  held := fun k id h => by cases h
  down := fun id h => by cases h
  registered := by simp [new]

theorem holder_setEntry (r : SessionRegistry) (id id' : Text) (e : SessionEntry) :
    (r.setEntry id e).holder id' =
      if id' = id then e.attachment.currentConnectionId else r.holder id' := by
  by_cases hid : id' = id
  · simp [holder, setEntry, hid]
  · simp [holder, setEntry, hid]

variable {id : Text} {e : SessionEntry} {k : ConnectionId} {phase : ConnectionPhase}
  {lock : Option SessionsLock} {action : SessionAction} {actions : List SessionAction}

/-! ## Transitions -/

/-- The transitions of the registry, each with the action that takes it. -/
inductive Transition (r : SessionRegistry) : SessionAction → SessionRegistry → Prop
  | elapse {duration : ℕ} : Transition r (.elapse duration) { r with now := r.now + duration }
  | call {k : ConnectionId} {resumeSessionId : Option Text} (hphase : r.phases k = .idle) :
      Transition r (.call k resumeSessionId) (r.setPhase k (.waiting resumeSessionId))
  | create {k : ConnectionId} {id : Text} (hphase : r.phases k = .waiting none)
      (hlock : r.lock = none) (hnew : id ∉ r.created) : Transition r (.create k id) (r.create k id)
  | found {k : ConnectionId} {id : Text} (hphase : r.phases k = .waiting (some id))
      (hlock : r.lock = none) (hmem : id ∈ r.sessions) : Transition r (.attach k)
        ((r.setLock (some (.attach k))).setPhase k (.checkingExpired id))
  | unknown {k : ConnectionId} {id : Text} (hphase : r.phases k = .waiting (some id)) :
      Transition r (.attach k) (r.setPhase k (.refused (unknownSession id)))
  | expired {k : ConnectionId} {id : Text} (hphase : r.phases k = .checkingExpired id)
      (hexpired : (r.entries id).isExpired r.now = true) :
      Transition r (.attach k) (r.setPhase k (.removing id))
  | fresh {k : ConnectionId} {id : Text} (hphase : r.phases k = .checkingExpired id)
      (hexpired : ¬(r.entries id).isExpired r.now = true) :
      Transition r (.attach k) (r.setPhase k (.checkingActive id))
  | remove {k : ConnectionId} {id : Text} (hphase : r.phases k = .removing id) :
      Transition r (.attach k) (((r.remove id).setLock none).setPhase k (.shuttingDown id))
  | active {k : ConnectionId} {id : Text} (hphase : r.phases k = .checkingActive id) :
      Transition r (.attach k) ((r.setLock none).setPhase k (.refused (alreadyAttached id)))
  | free {k : ConnectionId} {id : Text} (hphase : r.phases k = .checkingActive id)
      (hactive : ¬(r.entries id).hasActiveConnection = true) :
      Transition r (.attach k) (r.setPhase k (.installing id))
  | install {k : ConnectionId} {id : Text} (hphase : r.phases k = .installing id) :
      Transition r (.attach k) ((r.setEntry id
        ((r.entries id).setNotificationSender (some k))).setPhase k (.attaching id))
  | attach {k : ConnectionId} {id : Text} (hphase : r.phases k = .attaching id) :
      Transition r (.attach k)
        (((r.setEntry id ((r.entries id).attach k)).setLock none).setPhase k (.attached id))
  | shutDown {k : ConnectionId} {id : Text} (hphase : r.phases k = .shuttingDown id) :
      Transition r (.attach k) ((r.setEntry id (r.entries id).shutdown).setPhase k
        (.refused (unknownSession id)))
  | cancel {k : ConnectionId} (hphase : (r.phases k).attachedTo = none) :
      Transition r (.cancel k) (r.setPhase k .dropped)
  | superseded {k : ConnectionId} {id : Text} (hhandle : (r.phases k).handle = some id) :
      Transition r (.detach k) r
  | detach {k : ConnectionId} {id : Text} (hhandle : (r.phases k).handle = some id)
      (hheld : r.holder id = some k) : Transition r (.detach k)
        ((r.setEntry id ((r.entries id).detach k r.now)).setPhase k (.clearing id))
  | clear {k : ConnectionId} {id : Text} (hphase : r.phases k = .clearing id) :
      Transition r (.finishDetach k) ((r.setEntry id
        ((r.entries id).setNotificationSender none)).setPhase k (.spawning id))
  | spawn {k : ConnectionId} {id : Text} (hphase : r.phases k = .spawning id) :
      Transition r (.finishDetach k) ((r.setExpiry k (.spawned id)).setPhase k (.detached id))
  | sleep {k : ConnectionId} {id : Text} :
      Transition r (.expire k) (r.setExpiry k (.sleeping id (r.now + detachedSessionTtl)))
  | claim {k : ConnectionId} {id : Text} (hlock : r.lock = none) (hmem : id ∈ r.sessions)
      (hexpired : (r.entries id).isDetachedConnectionExpired k r.now = true) :
      Transition r (.expire k) ((r.setLock (some (.expire k))).setExpiry k (.removing id))
  | keep {k : ConnectionId} : Transition r (.expire k) (r.setExpiry k .ended)
  | removeDetached {k : ConnectionId} {id : Text} (hexpiry : r.expiries k = .removing id) :
      Transition r (.expire k) (((r.remove id).setLock none).setExpiry k (.shuttingDown id))
  | shutDownDetached {k : ConnectionId} {id : Text} (hexpiry : r.expiries k = .shuttingDown id) :
      Transition r (.expire k) ((r.setEntry id (r.entries id).shutdown).setExpiry k .ended)

theorem step_transition (hstep : r.stepOption action = some r') : r.Transition action r' := by
  cases action with
  | elapse duration =>
    cases hstep
    exact .elapse
  | call k resumeSessionId =>
    simp only [stepOption, ite_none_right_eq_some, Option.some.injEq] at hstep
    obtain ⟨hphase, rfl⟩ := hstep
    exact .call hphase
  | create k sessionId =>
    simp only [stepOption, ite_none_right_eq_some, Option.some.injEq] at hstep
    obtain ⟨⟨hphase, hlock, hnew⟩, rfl⟩ := hstep
    exact .create hphase hlock hnew
  | attach k =>
    simp only [stepOption, attachStep] at hstep
    repeat' split at hstep
    all_goals cases hstep
    · exact .found ‹_› (not_not.mp ‹_›) ‹_›
    · exact .unknown ‹_›
    · exact .expired ‹_› ‹_›
    · exact .fresh ‹_› ‹_›
    · exact .remove ‹_›
    · exact .active ‹_›
    · exact .free ‹_› ‹_›
    · exact .install ‹_›
    · exact .attach ‹_›
    · exact .shutDown ‹_›
  | cancel k =>
    simp only [stepOption, SessionRegistry.cancel] at hstep
    split at hstep
    all_goals cases hstep
    all_goals exact .cancel (congrArg ConnectionPhase.attachedTo ‹_›)
  | detach k =>
    simp only [stepOption, SessionRegistry.detach] at hstep
    repeat' split at hstep
    all_goals cases hstep
    · exact .superseded ‹_›
    · exact .detach ‹_› (not_not.mp ‹_›)
  | finishDetach k =>
    simp only [stepOption, SessionRegistry.finishDetach] at hstep
    split at hstep
    all_goals cases hstep
    · exact .clear ‹_›
    · exact .spawn ‹_›
  | expire k =>
    simp only [stepOption, expireStep] at hstep
    split at hstep
    next =>
      cases hstep
      exact .sleep
    next =>
      split at hstep
      · cases hstep
      next hready =>
        have hlock := not_not.mp (not_or.mp hready).2
        split at hstep <;> cases hstep
        next hexpired => exact .claim hlock hexpired.1 hexpired.2
        next => exact .keep
    next hexpiry =>
      cases hstep
      exact .removeDetached hexpiry
    next hexpiry =>
      cases hstep
      exact .shutDownDetached hexpiry
    next => cases hstep

/-! ## The invariant -/

theorem Inv.setEntry (h : r.Inv) (hcurrent : e.attachment.currentConnectionId = r.holder id)
    (hexpires : ∀ k, r.holder id = some k → e.attachment.detachedExpiresAt = none)
    (hdown : e.shutDown = true → id ∉ r.sessions) : (r.setEntry id e).Inv := by
  have hholder (id' : Text) : (r.setEntry id e).holder id' = r.holder id' := by
    rw [holder_setEntry, hcurrent]
    by_cases hid : id' = id <;> simp [hid]
  refine ⟨h.resuming, ?_, ?_, h.disposing, ?_, ?_, ?_, h.registered⟩
  · intro k id' hk
    rw [hholder]
    exact h.claiming k id' hk
  · intro k id' hk
    rw [hholder]
    exact h.expiring k id' hk
  · intro k id' hk
    rw [hholder]
    exact h.attached k id' hk
  · intro k id' hk
    rw [hholder] at hk
    obtain ⟨hphase, hnone, hmem⟩ := h.held k id' hk
    refine ⟨hphase, ?_, hmem⟩
    by_cases hid : id' = id
    · subst hid
      simpa [SessionRegistry.setEntry] using hexpires k hk
    · simpa [SessionRegistry.setEntry, hid] using hnone
  · intro id' hid'
    by_cases hid : id' = id
    · subst hid
      exact hdown (by simpa [SessionRegistry.setEntry] using hid')
    · exact h.down id' (by simpa [SessionRegistry.setEntry, hid] using hid')

theorem Inv.setNotificationSender (h : r.Inv) (id : Text) (notifications : Option ConnectionId) :
    (r.setEntry id ((r.entries id).setNotificationSender notifications)).Inv :=
  h.setEntry rfl (fun k hk => (h.held k id hk).2.1) (h.down id)

theorem Inv.shutdown (h : r.Inv) (hid : id ∉ r.sessions) :
    (r.setEntry id (r.entries id).shutdown).Inv :=
  h.setEntry rfl (fun k hk => (h.held k id hk).2.1) (fun _ => hid)

variable {k' : ConnectionId}

theorem phases_setPhase {f : ConnectionPhase → Option Text}
    (h : f ((r.setPhase k phase).phases k') = some id) :
    k' = k ∧ f phase = some id ∨ k' ≠ k ∧ f (r.phases k') = some id := by
  by_cases hk : k' = k
  · exact .inl ⟨hk, by simpa [setPhase, hk] using h⟩
  · exact .inr ⟨hk, by simpa [setPhase, hk] using h⟩

theorem expiries_setExpiry {f : ExpiryPhase → Option Text} {expiry : ExpiryPhase}
    (h : f ((r.setExpiry k expiry).expiries k') = some id) :
    k' = k ∧ f expiry = some id ∨ k' ≠ k ∧ f (r.expiries k') = some id := by
  by_cases hk : k' = k
  · exact .inl ⟨hk, by simpa [setExpiry, hk] using h⟩
  · exact .inr ⟨hk, by simpa [setExpiry, hk] using h⟩

theorem lock_kept {owner other : SessionsLock}
    (hlock : lock = r.lock ∨ r.lock = none ∨ r.lock = some owner) (hheld : r.lock = some other)
    (hne : other ≠ owner) : lock = some other := by
  rcases hlock with hlock | hlock | hlock
  · exact hlock.trans hheld
  · cases hlock.symm.trans hheld
  · cases hlock.symm.trans hheld
    exact absurd rfl hne

section
variable (h : r.Inv)
include h

theorem Inv.move (hlock : lock = r.lock ∨ r.lock = none ∨ r.lock = some (.attach k))
    (hresuming : ∀ id, phase.resuming = some id → lock = some (.attach k) ∧ id ∈ r.sessions)
    (hclaiming : ∀ id, phase.claiming = some id → r.holder id = none)
    (hdisposing : ∀ id, phase.disposing = some id → id ∈ r.created ∧ id ∉ r.sessions)
    (hattached : (r.phases k).attachedTo = none) (hattached' : phase.attachedTo = none) :
    ((r.setLock lock).setPhase k phase).Inv := by
  refine ⟨?_, ?_, ?_, ?_, ?_, ?_, h.down, h.registered⟩
  · intro k' id hk'
    obtain ⟨rfl, hp⟩ | ⟨hk, hp⟩ := phases_setPhase hk'
    · exact hresuming id hp
    · obtain ⟨hheld, hmem⟩ := h.resuming k' id hp
      exact ⟨lock_kept hlock hheld fun heq => hk (SessionsLock.attach.inj heq), hmem⟩
  · intro k' id hk'
    obtain ⟨-, hp⟩ | ⟨-, hp⟩ := phases_setPhase hk'
    · exact hclaiming id hp
    · exact h.claiming k' id hp
  · intro k' id hk'
    obtain ⟨hheld, hfree⟩ := h.expiring k' id hk'
    exact ⟨lock_kept hlock hheld nofun, hfree⟩
  · intro k' id hk'
    rcases hk' with hk' | hk'
    · obtain ⟨-, hp⟩ | ⟨-, hp⟩ := phases_setPhase hk'
      · exact hdisposing id hp
      · exact h.disposing k' id (.inl hp)
    · exact h.disposing k' id (.inr hk')
  · intro k' id hk'
    obtain ⟨-, hp⟩ | ⟨-, hp⟩ := phases_setPhase hk'
    · cases hattached'.symm.trans hp
    · exact h.attached k' id hp
  · intro k' id hk'
    obtain ⟨hphase, hexpires, hmem⟩ := h.held k' id hk'
    have hk : k' ≠ k := by
      rintro rfl
      cases hattached.symm.trans hphase
    exact ⟨by simpa [setPhase, setLock, hk] using hphase, hexpires, hmem⟩

theorem Inv.moveExpiry {expiry : ExpiryPhase}
    (hlock : lock = r.lock ∨ r.lock = none ∨ r.lock = some (.expire k))
    (hclaiming : ∀ id, expiry.claiming = some id →
      lock = some (.expire k) ∧ r.holder id = none ∧ id ∈ r.sessions)
    (hdisposing : ∀ id, expiry.disposing = some id → id ∈ r.created ∧ id ∉ r.sessions) :
    ((r.setLock lock).setExpiry k expiry).Inv := by
  refine ⟨?_, h.claiming, ?_, ?_, h.attached, h.held, h.down, h.registered⟩
  · intro k' id hk'
    obtain ⟨hheld, hmem⟩ := h.resuming k' id hk'
    exact ⟨lock_kept hlock hheld nofun, hmem⟩
  · intro k' id hk'
    obtain ⟨rfl, hp⟩ | ⟨hk, hp⟩ := expiries_setExpiry hk'
    · exact hclaiming id hp
    · obtain ⟨hheld, hfree⟩ := h.expiring k' id hp
      exact ⟨lock_kept hlock hheld fun heq => hk (SessionsLock.expire.inj heq), hfree⟩
  · intro k' id hk'
    rcases hk' with hk' | hk'
    · exact h.disposing k' id (.inl hk')
    · obtain ⟨-, hp⟩ | ⟨-, hp⟩ := expiries_setExpiry hk'
      · exact hdisposing id hp
      · exact h.disposing k' id (.inr hp)

theorem Inv.remove (hlock : r.lock = none) (hfree : r.holder id = none) : (r.remove id).Inv := by
  refine ⟨?_, h.claiming, ?_, ?_, h.attached, ?_, ?_, ?_⟩
  · intro k id' hk
    cases hlock.symm.trans (h.resuming k id' hk).1
  · intro k id' hk
    cases hlock.symm.trans (h.expiring k id' hk).1
  · intro k id' hk
    obtain ⟨hcreated, hmem⟩ := h.disposing k id' hk
    exact ⟨hcreated, fun hmem' => hmem (Finset.mem_of_mem_erase hmem')⟩
  · intro k id' hk
    obtain ⟨hphase, hexpires, hmem⟩ := h.held k id' hk
    refine ⟨hphase, hexpires, Finset.mem_erase.mpr ⟨?_, hmem⟩⟩
    intro hid
    subst hid
    cases hfree.symm.trans hk
  · intro id' hdown hmem
    exact h.down id' hdown (Finset.mem_of_mem_erase hmem)
  · exact (Finset.erase_subset _ _).trans h.registered

theorem Inv.insert (hnew : id ∉ r.created) (hdown : (r.entries id).shutDown = false) :
    ({ r with sessions := insert id r.sessions, created := insert id r.created } :
      SessionRegistry).Inv := by
  refine ⟨?_, h.claiming, ?_, ?_, h.attached, ?_, ?_, Finset.insert_subset_insert _ h.registered⟩
  · intro k id' hk
    obtain ⟨hheld, hmem⟩ := h.resuming k id' hk
    exact ⟨hheld, Finset.mem_insert_of_mem hmem⟩
  · intro k id' hk
    obtain ⟨hheld, hfree, hmem⟩ := h.expiring k id' hk
    exact ⟨hheld, hfree, Finset.mem_insert_of_mem hmem⟩
  · intro k id' hk
    obtain ⟨hcreated, hmem⟩ := h.disposing k id' hk
    refine ⟨Finset.mem_insert_of_mem hcreated, fun hmem' => ?_⟩
    rcases Finset.mem_insert.mp hmem' with rfl | hmem'
    · exact hnew hcreated
    · exact hmem hmem'
  · intro k id' hk
    obtain ⟨hphase, hexpires, hmem⟩ := h.held k id' hk
    exact ⟨hphase, hexpires, Finset.mem_insert_of_mem hmem⟩
  · intro id' hid' hmem
    rcases Finset.mem_insert.mp hmem with rfl | hmem
    · rw [hdown] at hid'
      cases hid'
    · exact h.down id' hid' hmem

theorem Inv.attachTo (lock : Option SessionsLock)
    (hnotLocked : r.lock = none ∨ r.lock = some (.attach k)) (hmem : id ∈ r.sessions)
    (hfree : r.holder id = none) (hattached : (r.phases k).attachedTo = none)
    (hattachment : e.attachment = ⟨some k, none, none⟩) (hdown : e.shutDown = false) :
    (((r.setEntry id e).setLock lock).setPhase k (.attached id)).Inv := by
  have hholder (id' : Text) :
      (((r.setEntry id e).setLock lock).setPhase k (.attached id)).holder id' =
        if id' = id then some k else r.holder id' := by
    have hentry := holder_setEntry r id id' e
    rw [hattachment] at hentry
    exact hentry
  have hother (k' : ConnectionId) (id' : Text) (hk : k' ≠ k) :
      (r.phases k').resuming ≠ some id' := by
    intro hk'
    have hheld := (h.resuming k' id' hk').1
    rcases hnotLocked with hnone | hself
    · cases hnone.symm.trans hheld
    · cases hself.symm.trans hheld
      exact hk rfl
  refine ⟨?_, ?_, ?_, ?_, ?_, ?_, ?_, h.registered⟩
  · intro k' id' hk'
    obtain ⟨-, hp⟩ | ⟨hk, hp⟩ := phases_setPhase hk'
    · cases hp
    · exact absurd hp (hother k' id' hk)
  · intro k' id' hk'
    obtain ⟨-, hp⟩ | ⟨hk, hp⟩ := phases_setPhase hk'
    · cases hp
    · exact absurd (ConnectionPhase.resuming_of_claiming hp) (hother k' id' hk)
  · intro k' id' hk'
    have hheld := (h.expiring k' id' hk').1
    rcases hnotLocked with hnone | hself
    · cases hnone.symm.trans hheld
    · cases hself.symm.trans hheld
  · intro k' id' hk'
    apply h.disposing k' id'
    rcases hk' with hk' | hk'
    · obtain ⟨-, hp⟩ | ⟨-, hp⟩ := phases_setPhase hk'
      · cases hp
      · exact .inl hp
    · exact .inr hk'
  · intro k' id' hk'
    rw [hholder]
    obtain ⟨rfl, hp⟩ | ⟨-, hp⟩ := phases_setPhase hk'
    · cases hp
      rw [if_pos rfl]
    · have hheld := h.attached k' id' hp
      have hid : id' ≠ id := by
        rintro rfl
        cases hfree.symm.trans hheld
      rw [if_neg hid, hheld]
  · intro k' id' hk'
    rw [hholder] at hk'
    by_cases hid : id' = id
    · subst hid
      obtain rfl : k = k' := by simpa using hk'
      exact ⟨by simp [setPhase, ConnectionPhase.attachedTo],
        by simp [setPhase, setLock, SessionRegistry.setEntry, hattachment], hmem⟩
    · rw [if_neg hid] at hk'
      obtain ⟨hphase, hexpires, hmem'⟩ := h.held k' id' hk'
      have hk : k' ≠ k := by
        rintro rfl
        cases hattached.symm.trans hphase
      exact ⟨by simpa [setPhase, setLock, SessionRegistry.setEntry, hk] using hphase,
        by simpa [setPhase, setLock, SessionRegistry.setEntry, hid] using hexpires, hmem'⟩
  · intro id' hid'
    by_cases hid : id' = id
    · subst hid
      simp [setPhase, setLock, SessionRegistry.setEntry, hdown] at hid'
    · exact h.down id' (by simpa [setPhase, setLock, SessionRegistry.setEntry, hid] using hid')

theorem Inv.leave (hheld : r.holder id = some k)
    (hcurrent : e.attachment.currentConnectionId = none)
    (hdown : e.shutDown = (r.entries id).shutDown) :
    ((r.setEntry id e).setPhase k (.clearing id)).Inv := by
  have hattached := (h.held k id hheld).1
  have hholder (id' : Text) :
      ((r.setEntry id e).setPhase k (.clearing id)).holder id' =
        if id' = id then none else r.holder id' := by
    have hentry := holder_setEntry r id id' e
    rw [hcurrent] at hentry
    exact hentry
  refine ⟨?_, ?_, ?_, ?_, ?_, ?_, ?_, h.registered⟩
  · intro k' id' hk'
    obtain ⟨-, hp⟩ | ⟨-, hp⟩ := phases_setPhase hk'
    · cases hp
    · exact h.resuming k' id' hp
  · intro k' id' hk'
    obtain ⟨-, hp⟩ | ⟨-, hp⟩ := phases_setPhase hk'
    · cases hp
    · rw [hholder, h.claiming k' id' hp, ite_self]
  · intro k' id' hk'
    obtain ⟨hlock, hfree, hmem⟩ := h.expiring k' id' hk'
    refine ⟨hlock, ?_, hmem⟩
    rw [hholder, hfree, ite_self]
  · intro k' id' hk'
    apply h.disposing k' id'
    rcases hk' with hk' | hk'
    · obtain ⟨-, hp⟩ | ⟨-, hp⟩ := phases_setPhase hk'
      · cases hp
      · exact .inl hp
    · exact .inr hk'
  · intro k' id' hk'
    obtain ⟨-, hp⟩ | ⟨hk, hp⟩ := phases_setPhase hk'
    · cases hp
    · have hheld' := h.attached k' id' hp
      have hid : id' ≠ id := by
        rintro rfl
        cases hheld.symm.trans hheld'
        exact hk rfl
      rw [hholder, if_neg hid, hheld']
  · intro k' id' hk'
    rw [hholder] at hk'
    by_cases hid : id' = id
    · simp [hid] at hk'
    · rw [if_neg hid] at hk'
      obtain ⟨hphase, hexpires, hmem⟩ := h.held k' id' hk'
      have hk : k' ≠ k := by
        rintro rfl
        cases hattached.symm.trans hphase
        exact hid rfl
      exact ⟨by simpa [setPhase, SessionRegistry.setEntry, hk] using hphase,
        by simpa [setPhase, SessionRegistry.setEntry, hid] using hexpires, hmem⟩
  · intro id' hid'
    apply h.down id'
    by_cases hid : id' = id
    · subst hid
      simpa [setPhase, SessionRegistry.setEntry, hdown] using hid'
    · simpa [setPhase, SessionRegistry.setEntry, hid] using hid'

end

/-! ## Steps -/

section
variable (h : r.Inv)
include h

theorem Inv.setPhase (hresuming : ∀ id, phase.resuming = some id → (r.phases k).resuming = some id)
    (hclaiming : ∀ id, phase.claiming = some id → r.holder id = none)
    (hdisposing : phase.disposing = none) (hattached : (r.phases k).attachedTo = none)
    (hattached' : phase.attachedTo = none) : (r.setPhase k phase).Inv :=
  Inv.move (r := r) h (.inl rfl) (fun id hid => h.resuming k id (hresuming id hid)) hclaiming
    (fun _ hid => nomatch hdisposing.symm.trans hid) hattached hattached'

theorem isExpired_holder (hexpired : (r.entries id).isExpired r.now = true) :
    r.holder id = none := by
  cases hheld : r.holder id with
  | none => rfl
  | some k =>
    have hnone := (h.held k id hheld).2.1
    simp [SessionEntry.isExpired, hnone] at hexpired

theorem Inv.settle (hlock : lock = r.lock ∨ r.lock = none ∨ r.lock = some (.attach k))
    (hattached : (r.phases k).attachedTo = none)
    (hphase : phase.resuming = none ∧ phase.disposing = none ∧ phase.attachedTo = none) :
    ((r.setLock lock).setPhase k phase).Inv := by
  obtain ⟨hresuming, hdisposing, hattached'⟩ := hphase
  refine h.move hlock ?_ ?_ ?_ hattached hattached'
  · intro id hid
    cases hresuming.symm.trans hid
  · intro id hid
    cases hresuming.symm.trans (ConnectionPhase.resuming_of_claiming hid)
  · intro id hid
    cases hdisposing.symm.trans hid

theorem Inv.removeExpired (hphase : r.phases k = .removing id) :
    (((r.remove id).setLock none).setPhase k (.shuttingDown id)).Inv := by
  obtain ⟨hlock, hmem⟩ := h.resuming k id (by rw [hphase]; rfl)
  have hfree := h.claiming k id (by rw [hphase]; rfl)
  have hgone : ((r.setLock none).setPhase k .dropped).Inv :=
    h.settle (.inr (.inr hlock)) (by rw [hphase]; rfl) ⟨rfl, rfl, rfl⟩
  have hremoved := hgone.remove rfl hfree
  have hdropped : (((r.setLock none).setPhase k .dropped).remove id).phases k = .dropped :=
    update_self ..
  have hmoved : (((((r.setLock none).setPhase k .dropped).remove id).setLock none).setPhase k
      (.shuttingDown id)).Inv := by
    refine hremoved.move (.inr (.inl rfl)) nofun nofun ?_ (by rw [hdropped]; rfl) rfl
    intro id' hid'
    cases hid'
    exact ⟨h.registered hmem, Finset.notMem_erase id r.sessions⟩
  simpa [SessionRegistry.remove, SessionRegistry.setPhase, setLock] using hmoved

theorem Inv.removeDetached (hexpiry : r.expiries k = .removing id) :
    (((r.remove id).setLock none).setExpiry k (.shuttingDown id)).Inv := by
  obtain ⟨hlock, hfree, hmem⟩ := h.expiring k id (by rw [hexpiry]; rfl)
  have hgone : ((r.setLock none).setExpiry k .ended).Inv :=
    h.moveExpiry (.inr (.inr hlock)) nofun nofun
  have hremoved := hgone.remove rfl hfree
  have hmoved : (((((r.setLock none).setExpiry k .ended).remove id).setLock none).setExpiry k
      (.shuttingDown id)).Inv := by
    refine hremoved.moveExpiry (.inr (.inl rfl)) nofun ?_
    intro id' hid'
    cases hid'
    exact ⟨h.registered hmem, Finset.notMem_erase id r.sessions⟩
  simpa [SessionRegistry.remove, setExpiry, setLock] using hmoved

theorem Inv.create (hphase : r.phases k = .waiting none) (hlock : r.lock = none)
    (hnew : id ∉ r.created) : (r.create k id).Inv := by
  have hfree : r.holder id = none := by
    cases hheld : r.holder id with
    | none => rfl
    | some k' => exact absurd (h.registered (h.held k' id hheld).2.2) hnew
  have hvacant : (r.setEntry id .vacant).Inv :=
    h.setEntry hfree.symm (fun _ hk => nomatch hfree.symm.trans hk) (nofun)
  have hinserted := hvacant.insert hnew (by simp [SessionRegistry.setEntry, SessionEntry.vacant])
  have hholder := holder_setEntry r id id .vacant
  rw [if_pos rfl] at hholder
  have hmade := hinserted.attachTo r.lock (.inl hlock) (Finset.mem_insert_self id r.sessions)
    hholder (congrArg ConnectionPhase.attachedTo hphase)
    (by rfl : (SessionEntry.new k).attachment = ⟨some k, none, none⟩) rfl
  simpa [SessionRegistry.create, SessionRegistry.setEntry, setLock, SessionRegistry.setPhase]
    using hmade

theorem Inv.step (hstep : r.stepOption action = some r') : r'.Inv := by
  cases step_transition hstep with
  | elapse =>
    exact ⟨h.resuming, h.claiming, h.expiring, h.disposing, h.attached, h.held, h.down,
      h.registered⟩
  | call hphase | unknown hphase =>
    exact Inv.settle (r := r) h (.inl rfl) (congrArg ConnectionPhase.attachedTo hphase)
      ⟨rfl, rfl, rfl⟩
  | cancel hattached => exact Inv.settle (r := r) h (.inl rfl) hattached ⟨rfl, rfl, rfl⟩
  | create hphase hlock hnew => exact h.create hphase hlock hnew
  | found hphase hlock hmem =>
    refine h.move (.inr (.inl hlock)) ?_ nofun nofun
      (congrArg ConnectionPhase.attachedTo hphase) rfl
    intro id' hid'
    cases hid'
    exact ⟨rfl, hmem⟩
  | expired hphase hexpired =>
    refine h.setPhase ?_ ?_ rfl (congrArg ConnectionPhase.attachedTo hphase) rfl
    · intro id' hid'
      exact (congrArg ConnectionPhase.resuming hphase).trans hid'
    · intro id' hid'
      cases hid'
      exact isExpired_holder h hexpired
  | fresh hphase =>
    refine h.setPhase ?_ nofun rfl (congrArg ConnectionPhase.attachedTo hphase) rfl
    intro id' hid'
    exact (congrArg ConnectionPhase.resuming hphase).trans hid'
  | remove hphase => exact h.removeExpired hphase
  | active hphase =>
    have hlock := (h.resuming _ _ (congrArg ConnectionPhase.resuming hphase)).1
    exact h.settle (.inr (.inr hlock)) (congrArg ConnectionPhase.attachedTo hphase) ⟨rfl, rfl, rfl⟩
  | free hphase hactive =>
    refine h.setPhase ?_ ?_ rfl (congrArg ConnectionPhase.attachedTo hphase) rfl
    · intro id' hid'
      exact (congrArg ConnectionPhase.resuming hphase).trans hid'
    · intro id' hid'
      cases hid'
      simpa [SessionEntry.hasActiveConnection, holder] using hactive
  | @install k id hphase =>
    have hsent := h.setNotificationSender id (some k)
    refine hsent.setPhase ?_ ?_ rfl (congrArg ConnectionPhase.attachedTo hphase) rfl
    · intro id' hid'
      exact (congrArg ConnectionPhase.resuming hphase).trans hid'
    · intro id' hid'
      cases hid'
      rw [holder_setEntry, if_pos rfl]
      exact h.claiming k id (congrArg ConnectionPhase.claiming hphase)
  | @attach k id hphase =>
    obtain ⟨hlock, hmem⟩ := h.resuming k id (congrArg ConnectionPhase.resuming hphase)
    refine h.attachTo none (.inr hlock) hmem
      (h.claiming k id (congrArg ConnectionPhase.claiming hphase))
      (congrArg ConnectionPhase.attachedTo hphase) rfl ?_
    by_contra hdown
    exact h.down id (by simpa [SessionEntry.attach] using hdown) hmem
  | @shutDown k id hphase =>
    have hgone := (h.disposing k id (.inl (congrArg ConnectionPhase.disposing hphase))).2
    exact Inv.settle (r := r.setEntry id (r.entries id).shutdown) (h.shutdown hgone) (.inl rfl)
      (congrArg ConnectionPhase.attachedTo hphase) ⟨rfl, rfl, rfl⟩
  | superseded => exact h
  | detach _ hheld => exact h.leave hheld rfl rfl
  | @clear k id hphase =>
    exact Inv.settle (r := r.setEntry id ((r.entries id).setNotificationSender none))
      (h.setNotificationSender id none) (.inl rfl) (congrArg ConnectionPhase.attachedTo hphase)
      ⟨rfl, rfl, rfl⟩
  | @spawn k id hphase =>
    have hspawned : (r.setExpiry k (.spawned id)).Inv :=
      Inv.moveExpiry (r := r) h (.inl rfl) nofun nofun
    exact Inv.settle (r := r.setExpiry k (.spawned id)) hspawned (.inl rfl)
      (congrArg ConnectionPhase.attachedTo hphase) ⟨rfl, rfl, rfl⟩
  | sleep | keep => exact Inv.moveExpiry (r := r) h (.inl rfl) nofun nofun
  | claim hlock hmem hexpired =>
    refine h.moveExpiry (.inr (.inl hlock)) ?_ nofun
    intro id' hid'
    cases hid'
    simp only [SessionEntry.isDetachedConnectionExpired, Bool.and_eq_true] at hexpired
    exact ⟨rfl, by simpa [holder] using hexpired.1.1, hmem⟩
  | removeDetached hexpiry => exact h.removeDetached hexpiry
  | @shutDownDetached k id hexpiry =>
    have hgone := (h.disposing k id (.inr (congrArg ExpiryPhase.disposing hexpiry))).2
    exact Inv.moveExpiry (r := r.setEntry id (r.entries id).shutdown) (h.shutdown hgone)
      (.inl rfl) nofun nofun

end

theorem step_eq_ok : step r action = .ok r' ↔ r.stepOption action = some r' := by
  unfold step
  cases r.stepOption action <;> simp

theorem run_inv (hrun : actions.foldlM step new = .ok r) : r.Inv :=
  run_keeps (fun _ _ _ h hstep => h.step (step_eq_ok.mp hstep)) inv_new hrun

/-! ## Sessions that are held -/

theorem holder_of_attached (h : r.Inv) (hphase : r.phases k = .attached id) :
    r.holder id = some k :=
  h.attached k id (by rw [hphase]; rfl)

theorem attachStep_held (h : r.Inv) (hheld : r.holder id = some k')
    (hstep : r.attachStep k = some r') : r'.entries id = r.entries id ∧ id ∈ r'.sessions := by
  have hmem := (h.held k' id hheld).2.2
  have hclaiming {id' : Text} (hphase : (r.phases k).claiming = some id') : id ≠ id' := by
    rintro rfl
    cases hheld.symm.trans (h.claiming k id hphase)
  have hstep : r.stepOption (.attach k) = some r' := hstep
  cases step_transition hstep with
  | remove hphase =>
    exact ⟨rfl, Finset.mem_erase.mpr ⟨hclaiming (congrArg ConnectionPhase.claiming hphase), hmem⟩⟩
  | install hphase | attach hphase =>
    exact ⟨update_of_ne (hclaiming (congrArg ConnectionPhase.claiming hphase)) .., hmem⟩
  | @shutDown _ id' hphase =>
    have hgone := (h.disposing k id' (.inl (congrArg ConnectionPhase.disposing hphase))).2
    exact ⟨update_of_ne (ne_of_mem_of_not_mem hmem hgone) .., hmem⟩
  | _ => exact ⟨rfl, hmem⟩

theorem step_held (h : r.Inv) (hheld : r.holder id = some k)
    (hstep : r.stepOption action = some r') : r'.holder id = some k ∨
      r'.entries id = (r.entries id).detach k r.now ∧ r'.now = r.now := by
  obtain ⟨-, -, hmem⟩ := h.held k id hheld
  have hsame (hentry : r'.entries id = r.entries id) : r'.holder id = some k := by
    unfold holder at hheld ⊢
    rw [hentry]
    exact hheld
  cases step_transition hstep with
  | @create k' id' _ _ hnew =>
    exact .inl (hsame (update_of_ne (ne_of_mem_of_not_mem (h.registered hmem) hnew) ..))
  | install | attach | shutDown => exact .inl (hsame (attachStep_held h hheld hstep).1)
  | @detach k' id' _ hheld' =>
    by_cases hid : id = id'
    · subst hid
      obtain rfl : k = k' := by simpa using hheld.symm.trans hheld'
      exact .inr ⟨update_self .., rfl⟩
    · exact .inl (hsame (update_of_ne hid ..))
  | @clear _ id' =>
    left
    by_cases hid : id = id'
    · subst hid
      have hsame' := holder_setEntry r id id ((r.entries id).setNotificationSender none)
      rw [if_pos rfl] at hsame'
      exact hsame'.trans hheld
    · exact hsame (update_of_ne hid ..)
  | @shutDownDetached k' id' hexpiry =>
    have hgone := (h.disposing k' id' (.inr (congrArg ExpiryPhase.disposing hexpiry))).2
    exact .inl (hsame (update_of_ne (ne_of_mem_of_not_mem hmem hgone) ..))
  | _ => exact .inl hheld

/-! ## Resuming a session that is attached or expired -/

theorem detachedSessionTtl_pos : 0 < detachedSessionTtl :=
  Nat.mul_pos (Nat.succ_pos 9) (Nat.pow_pos (Nat.succ_pos 9))

theorem isExpired_detach (e : SessionEntry) (k : ConnectionId) (now : ℕ) :
    (e.detach k now).isExpired now = false := by
  have hlater : ¬now + detachedSessionTtl ≤ now :=
    Nat.not_le.mpr (Nat.lt_add_of_pos_right detachedSessionTtl_pos)
  unfold SessionEntry.isExpired SessionEntry.detach
  rw [any_some]
  exact decide_eq_false hlater

def Unavailable (r : SessionRegistry) (id : Text) : Prop :=
  r.holder id ≠ none ∨ (r.entries id).isExpired r.now = true

def Refusing (r : SessionRegistry) (k : ConnectionId) (id : Text) : Prop :=
  match r.phases k with
  | .waiting resumeSessionId => resumeSessionId = some id
  | .checkingExpired id' => id' = id
  | .checkingActive id' => id' = id ∧ (r.holder id ≠ none ∨ (r.entries id).isExpired r.now = false)
  | .removing _ => True
  | .shuttingDown _ => True
  | .refused _ => True
  | .dropped => True
  | _ => False

theorem Refusing.no_handle (h : r.Refusing k id) : (r.phases k).handle = none := by
  unfold Refusing at h
  cases hphase : r.phases k <;> simp only [hphase] at h <;> rfl

theorem Refusing.of_phase (hinv : r.Inv) (h : r.Refusing k id) (hbusy : r.Unavailable id)
    (hstep : r.stepOption action = some r') (hphase : r'.phases k = r.phases k) :
    r'.Refusing k id := by
  unfold Refusing at h ⊢
  rw [hphase]
  cases hp : r.phases k <;> simp only [hp] at h ⊢ <;> try exact h
  obtain ⟨hid, hcheck⟩ := h
  refine ⟨hid, ?_⟩
  obtain ⟨k', hheld⟩ : ∃ k', r.holder id = some k' := by
    apply ne_none_iff_exists'.mp
    rcases hbusy with hheld | hexpired
    · exact hheld
    · rcases hcheck with hheld | hfresh
      · exact hheld
      · rw [hexpired] at hfresh
        cases hfresh
  rcases step_held hinv hheld hstep with hheld' | ⟨hentry, hnow⟩
  · left
    simp [hheld']
  · right
    rw [hentry, hnow]
    exact isExpired_detach (r.entries id) k' r.now

theorem step_phase_of_ne (haction : action.connection ≠ some k)
    (hstep : r.stepOption action = some r') : r'.phases k = r.phases k := by
  have hk {k' : ConnectionId} (hk' : action.connection = some k') : k ≠ k' := by
    rintro rfl
    exact haction hk'
  cases step_transition hstep with
  | elapse | superseded | sleep | claim | keep | removeDetached | shutDownDetached => rfl
  | _ => exact update_of_ne (hk rfl) ..

theorem Refusing.step (hinv : r.Inv) (h : r.Refusing k id) (hbusy : r.Unavailable id)
    (hstep : r.stepOption action = some r') : r'.Refusing k id := by
  by_cases haction : action.connection = some k
  swap
  · exact h.of_phase hinv hbusy hstep (step_phase_of_ne haction hstep)
  have hhandle := h.no_handle
  have hself (s : SessionRegistry) (phase : ConnectionPhase) :
      (s.setPhase k phase).phases k = phase := update_self ..
  unfold Refusing at h ⊢
  cases step_transition hstep with
  | elapse | sleep | claim | keep | removeDetached | shutDownDetached => cases haction
  | create hphase _ _ =>
    cases haction
    rw [hphase] at h
    cases h
  | found hphase _ _ =>
    cases haction
    rw [hphase] at h
    cases h
    rw [hself]
  | fresh hphase hexpired =>
    cases haction
    rw [hphase] at h
    obtain rfl := h
    rw [hself]
    have hfresh := Bool.eq_false_of_not_eq_true hexpired
    exact ⟨rfl, .inr hfresh⟩
  | @free _ id' hphase hactive =>
    cases haction
    rw [hphase] at h
    obtain ⟨rfl, hcheck⟩ := h
    have hfree : r.holder id' = none := by
      simpa [SessionEntry.hasActiveConnection, holder] using hactive
    exfalso
    rcases hbusy with hheld | hexpired
    · exact hheld hfree
    · rcases hcheck with hheld | hfresh
      · exact hheld hfree
      · cases hexpired.symm.trans hfresh
  | superseded hhandle' | detach hhandle' _ =>
    cases haction
    cases hhandle.symm.trans hhandle'
  | call hphase | install hphase | attach hphase | clear hphase | spawn hphase =>
    cases haction
    rw [hphase] at h
    exact h.elim
  | _ =>
    cases haction
    rw [hself]
    trivial

theorem Refusing.run (hinv : r.Inv) (h : r.Refusing k id)
    (hbusy : Along SessionRegistry.step (fun u _ => u.Unavailable id) r actions)
    (hrun : actions.foldlM SessionRegistry.step r = .ok r') : r'.Refusing k id := by
  refine (run_keeps_along (I := fun u => u.Inv ∧ u.Refusing k id) ?_ ⟨hinv, h⟩ hbusy
    List.prefix_rfl hrun).2
  intro u action v hu hbusy hstep
  have hstep := step_eq_ok.mp hstep
  exact ⟨hu.1.step hstep, hu.2.step hu.1 hbusy hstep⟩

/-! ## The notification sender -/

/-- Whoever is attached, or about to be, has its own sender installed. -/
structure Senders (r : SessionRegistry) : Prop where
  held : ∀ k id, r.holder id = some k → (r.entries id).notifications = some k
  attaching : ∀ k id, r.phases k = .attaching id → (r.entries id).notifications = some k

/-- Where a `detach` clears the sender of its session, nobody is attached to the session and
nobody has installed a sender to attach with. -/
def ClearsNobody (r : SessionRegistry) : SessionAction → Prop
  | .finishDetach connection => ∀ id, r.phases connection = .clearing id →
      r.holder id = none ∧ ∀ k, r.phases k ≠ .attaching id
  | _ => True

theorem Senders.keep (h : r.Senders)
    (hentries : ∀ id, (r'.entries id).notifications = (r.entries id).notifications)
    (hholder : ∀ id k, r'.holder id = some k → r.holder id = some k)
    (hphases : ∀ k id, r'.phases k = .attaching id → r.phases k = .attaching id) : r'.Senders where
  held := by
    intro k id hk
    rw [hentries]
    exact h.held k id (hholder id k hk)
  attaching := by
    intro k id hk
    rw [hentries]
    exact h.attaching k id (hphases k id hk)

theorem Senders.move (h : r.Senders) (hentries : r'.entries = r.entries)
    (hphases : r'.phases = Function.update r.phases k phase)
    (hphase : ∀ id, phase ≠ .attaching id) : r'.Senders := by
  apply h.keep
  · intro id
    rw [hentries]
  · intro id k' hk'
    unfold holder at hk' ⊢
    rwa [hentries] at hk'
  · intro k' id hk'
    rw [hphases] at hk'
    by_cases hk : k' = k
    · subst hk
      exact absurd (by simpa using hk') (hphase id)
    · simpa [hk] using hk'

theorem Senders.install (h : r.Senders) (hsender : (r.entries id).notifications = some k) :
    (r.setPhase k (.attaching id)).Senders where
  held := h.held
  attaching := by
    intro k' id' hk'
    by_cases hk : k' = k
    · subst hk
      obtain rfl : id = id' := by simpa [SessionRegistry.setPhase] using hk'
      exact hsender
    · exact h.attaching k' id' (by simpa [SessionRegistry.setPhase, hk] using hk')

theorem Senders.setEntry (h : r.Senders)
    (hheld : ∀ k, e.attachment.currentConnectionId = some k → e.notifications = some k)
    (hattaching : ∀ k, r.phases k = .attaching id → e.notifications = some k) :
    (r.setEntry id e).Senders where
  held := by
    intro k id' hk
    rw [holder_setEntry] at hk
    by_cases hid : id' = id
    · subst hid
      rw [if_pos rfl] at hk
      simpa [SessionRegistry.setEntry] using hheld k hk
    · rw [if_neg hid] at hk
      simpa [SessionRegistry.setEntry, hid] using h.held k id' hk
  attaching := by
    intro k id' hk
    by_cases hid : id' = id
    · subst hid
      simpa [SessionRegistry.setEntry] using hattaching k hk
    · simpa [SessionRegistry.setEntry, hid] using h.attaching k id' hk

theorem attaching_of_lock (h : r.Inv) (hlock : r.lock = some (.attach k))
    (hphase : r.phases k' = .attaching id) : k' = k := by
  have hheld := (h.resuming k' id (by rw [hphase]; rfl)).1
  rw [hlock] at hheld
  cases hheld
  rfl

theorem Senders.shutdown (h : r.Senders) (id : Text) :
    (r.setEntry id (r.entries id).shutdown).Senders :=
  h.setEntry (fun k hk => h.held k id hk) (fun k hk => h.attaching k id hk)

theorem Senders.step (h : r.Senders) (hinv : r.Inv) (hclears : r.ClearsNobody action)
    (hstep : r.stepOption action = some r') : r'.Senders := by
  cases step_transition hstep with
  | superseded => exact h
  | elapse | sleep | claim | keep | removeDetached =>
    exact h.keep (fun _ => rfl) (fun _ _ hk => hk) (fun _ _ hk => hk)
  | @shutDownDetached _ id =>
    exact (h.shutdown id).keep (fun _ => rfl) (fun _ _ hk => hk) (fun _ _ hk => hk)
  | @create k id _ hlock =>
    have hmade : (r.setEntry id (.new k)).Senders := by
      apply h.setEntry
      · exact fun k' hk' => hk'
      · intro k' hk'
        have hheld := (hinv.resuming k' id (by rw [hk']; rfl)).1
        cases hlock.symm.trans hheld
    exact hmade.move rfl rfl nofun
  | @install k id hphase =>
    have hlock := (hinv.resuming k id (by rw [hphase]; rfl)).1
    have hfree := hinv.claiming k id (by rw [hphase]; rfl)
    have hsent : (r.setEntry id ((r.entries id).setNotificationSender (some k))).Senders := by
      apply h.setEntry
      · intro k' hk'
        cases hfree.symm.trans hk'
      · intro k' hk'
        rw [attaching_of_lock hinv hlock hk']
        rfl
    exact hsent.install (by simp [SessionRegistry.setEntry, SessionEntry.setNotificationSender])
  | @attach k id hphase =>
    have hlock := (hinv.resuming k id (by rw [hphase]; rfl)).1
    have hsender := h.attaching k id hphase
    have htaken : (r.setEntry id ((r.entries id).attach k)).Senders := by
      apply h.setEntry
      · intro k' hk'
        cases hk'
        exact hsender
      · intro k' hk'
        rw [attaching_of_lock hinv hlock hk']
        exact hsender
    exact htaken.move rfl rfl nofun
  | @shutDown _ id => exact (h.shutdown id).move rfl rfl nofun
  | @detach k id =>
    have hleft : (r.setEntry id ((r.entries id).detach k r.now)).Senders :=
      h.setEntry nofun (fun k' hk' => h.attaching k' id hk')
    exact hleft.move rfl rfl nofun
  | @clear _ id hphase =>
    obtain ⟨hfree, hnobody⟩ := hclears id hphase
    have hcleared : (r.setEntry id ((r.entries id).setNotificationSender none)).Senders :=
      h.setEntry (fun k' hk' => nomatch hfree.symm.trans hk')
        (fun k' hk' => absurd hk' (hnobody k'))
    exact hcleared.move rfl rfl nofun
  | _ => exact h.move rfl rfl nofun

theorem run_senders (hclears : Along SessionRegistry.step ClearsNobody new actions)
    (hrun : actions.foldlM SessionRegistry.step new = .ok r) : r.Senders := by
  refine (run_keeps_along (I := fun u => u.Inv ∧ u.Senders) ?_ ⟨inv_new, ?_⟩ hclears
    List.prefix_rfl hrun).2
  · intro u action v hu hclears hstep
    have hstep := step_eq_ok.mp hstep
    exact ⟨hu.1.step hstep, hu.2.step hu.1 hclears hstep⟩
  · exact ⟨(nofun), (nofun)⟩

/-! ## Attachment -/

/-- A connection is attached from the end of its `attach` to the start of its `detach`. No two
are attached to one session, which stays registered and alive. A call that resumes leaves
attached sessions alone, and gets no session that is attached or expired while it runs.
Where no `detach` clears the sender of another connection, the sender of a session is that
of the connection attached to it. -/
theorem session_attachment {actions : List SessionAction}
    (hrun : actions.foldlM SessionRegistry.step new = .ok r) :
    (∀ k id, (r.phases k).handle = some id →
      ((r.entries id).isAttachedTo k = true ↔ r.phases k = .attached id)) ∧
    (∀ k k' id, r.phases k = .attached id → r.phases k' = .attached id → k = k') ∧
    (∀ k id, r.phases k = .attached id → id ∈ r.sessions ∧ (r.entries id).shutDown = false) ∧
    (∀ k r', SessionRegistry.step r (.attach k) = .ok r' → ∀ k' id, r.phases k' = .attached id →
      r'.entries id = r.entries id ∧ id ∈ r'.sessions) ∧
    (∀ k id more r', r.phases k = .waiting (some id) →
      Along SessionRegistry.step (fun u _ => u.Unavailable id) r more →
      more.foldlM SessionRegistry.step r = .ok r' → (r'.phases k).handle = none) ∧
    (Along SessionRegistry.step ClearsNobody new actions →
      ∀ k id, r.phases k = .attached id → (r.entries id).notifications = some k) := by
  have h := run_inv hrun
  refine ⟨?_, ?_, ?_, ?_, ?_, ?_⟩
  · intro k id _
    unfold SessionEntry.isAttachedTo
    rw [decide_eq_true_iff]
    constructor
    · intro hheld
      have hattached := (h.held k id hheld).1
      cases hphase : r.phases k <;> rw [hphase] at hattached <;> cases hattached
      rfl
    · exact holder_of_attached h
  · intro k k' id hk hk'
    have hboth := (holder_of_attached h hk).symm.trans (holder_of_attached h hk')
    simpa using hboth
  · intro k id hk
    have hmem := (h.held k id (holder_of_attached h hk)).2.2
    refine ⟨hmem, ?_⟩
    by_contra hdown
    exact h.down id (by simpa using hdown) hmem
  · intro k r' hstep k' id hk'
    exact attachStep_held h (holder_of_attached h hk') (step_eq_ok.mp hstep)
  · intro k id more r' hphase hbusy hmore
    have hrefusing : r.Refusing k id := by
      unfold Refusing
      rw [hphase]
    exact (hrefusing.run h hbusy hmore).no_handle
  · intro hclears k id hk
    exact (run_senders hclears hrun).held k id (holder_of_attached h hk)

/-- The second connection resumes the session that the first one has just let go of. -/
def resumeInBetween : List SessionAction :=
  [.call 0 none, .create 0 ['s'], .call 1 (some ['s']), .detach 0, .attach 1, .attach 1,
    .attach 1, .attach 1, .attach 1, .finishDetach 0, .finishDetach 0]

theorem resumed_session_without_sender :
    ∃ r, resumeInBetween.foldlM SessionRegistry.step new = .ok r ∧
      r.phases 0 = .detached ['s'] ∧ r.phases 1 = .attached ['s'] ∧
      (∀ k : ℕ, 1 < k → r.phases k = .idle) ∧ r.lock = none ∧
      (r.entries ['s']).notifications = none := by
  refine ⟨_, rfl, rfl, rfl, ?_, rfl, rfl⟩
  intro k hk
  have h0 : k ≠ 0 := by omega
  have h1 : k ≠ 1 := by omega
  simp [setPhase, setEntry, setLock, create, new, h0, h1, setExpiry]

/-- The second connection waits for the first to end its `detach`. -/
def detachThenResume : List SessionAction :=
  [.call 0 none, .create 0 ['s'], .detach 0]

def clearThenResume : List SessionAction :=
  [.finishDetach 0, .finishDetach 0, .call 1 (some ['s']), .attach 1, .attach 1, .attach 1,
    .attach 1, .attach 1]

theorem session_attachment_resumed :
    ∃ r, (detachThenResume ++ clearThenResume).foldlM SessionRegistry.step new = .ok r ∧
      r.phases 1 = .attached ['s'] ∧ (r.entries ['s']).notifications = some 1 ∧
      ['s'] ∈ r.sessions := by
  have hclears :
      Along SessionRegistry.step ClearsNobody new (detachThenResume ++ clearThenResume) := by
    refine Along.append (Along.of_forall ?_ _) fun u hu => ?_
    · simp [detachThenResume, ClearsNobody]
    · cases hu
      refine ⟨?_, fun u hu => ⟨?_, fun u _ => Along.of_forall ?_ u⟩⟩
      · intro id hid
        obtain rfl : ['s'] = id := ConnectionPhase.clearing.inj hid
        refine ⟨rfl, fun k => ?_⟩
        by_cases hk : k = 0 <;> simp [setPhase, setEntry, create, new, hk]
      · cases hu
        exact fun id hid => nomatch (hid : ConnectionPhase.spawning ['s'] = .clearing id)
      · simp [ClearsNobody]
  have hruns : ∃ r, (detachThenResume ++ clearThenResume).foldlM SessionRegistry.step new = .ok r ∧
      r.phases 1 = .attached ['s'] := ⟨_, rfl, rfl⟩
  obtain ⟨r, hrun, hphase⟩ := hruns
  obtain ⟨-, -, hkept, -, -, hsenders⟩ := session_attachment hrun
  exact ⟨r, hrun, hphase, hsenders hclears 1 _ hphase, (hkept 1 _ hphase).1⟩

end SessionRegistry

end Codex.ExecServer
