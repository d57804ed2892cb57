import Codex.AgentBackend.Requests
import Codex.Foundation.Run
import Codex.Foundation.Slots

/-!
# What becomes of requests

Ids are never reused, and a call returns once, with a response that bears its id or with an
error of its own. Only the reader releases a call: an entry outlives its call where the
write fails, and calls wait for ever where the reader has ended.
-/

namespace Codex.AgentBackend

open Foundation List Option

theorem requestId_injective (kind : BackendKind) : Function.Injective (requestId kind) := by
  intro m n h
  cases kind <;> exact decimal_injective (List.cons.inj h).2

namespace Backend

section
variable (printJson : Json → Text) (kind : BackendKind) (b : Backend)

def OwnResponse (id : Text) (response : Response) : Prop :=
  ∃ value ∈ b.inbound, idOf value = some id ∧ response = responseOf printJson value

structure Matched : Prop where
  unique : (b.calls.map Call.id).Nodup
  once : (b.completed.map Prod.fst).Nodup
  own : ∀ i response, (i, response) ∈ b.completed → response = .error .closed ∨
    (∃ message, response = .error (.transport message)) ∨
    ∃ c, b.calls[i]? = some c ∧ b.OwnResponse printJson c.id response
  entries : ∀ id i, b.pending.lookup id = some i → b.readerEnded = false ∧
    ∃ c, b.calls[i]? = some c ∧ c.id = id ∧ (c.phase = .writing ∨ c.phase = .waiting)
  released : b.readerEnded = true → ∀ i c, b.calls[i]? = some c → c.phase = .waiting →
    c.received ≠ none ∨ b.pending.lookup c.id ≠ some i

/-- A call is registered only while the reader runs, a write fails only behind the
response, and the reader ends only with nothing pending. -/
def Orderly (b : Backend) : Action → Prop
  | .register _ => b.readerEnded = false
  | .writeFails i _ => ∃ c, b.calls[i]? = some c ∧ c.received ≠ none
  | .readerEnds => ∀ id, b.pending.lookup id = none
  | _ => True

/-! ## What holds in every run -/

structure CallInv (i : ℕ) (c : Call) : Prop where
  id : c.id = requestId kind (i + 1)
  fresh : c.phase = .allocated → c.received = none
  sender : c.phase = .writing ∨ c.phase = .waiting → c.received = none →
    b.pending.lookup c.id = some i
  response : ∀ response, c.received = some response → b.OwnResponse printJson c.id response
  done : ∀ response, (i, response) ∈ b.completed → c.phase = .done response

structure Inv : Prop where
  count : b.nextId = b.calls.length
  call : ∀ i c, b.calls[i]? = some c → b.CallInv printJson kind i c
  entry : ∀ id i, b.pending.lookup id = some i →
    ∃ c, b.calls[i]? = some c ∧ c.id = id ∧ c.phase ≠ .allocated ∧ c.received = none
  listed : ∀ i response, (i, response) ∈ b.completed → ∃ c, b.calls[i]? = some c
  once : (b.completed.map Prod.fst).Nodup
  own : ∀ i response, (i, response) ∈ b.completed → response = .error .closed ∨
    (∃ message, response = .error (.transport message)) ∨
    ∃ c, b.calls[i]? = some c ∧ b.OwnResponse printJson c.id response

end

section
variable {printJson : Json → Text} {kind : BackendKind} {b : Backend} {i : ℕ} {c : Call}

theorem inv_new : new.Inv printJson kind :=
  ⟨rfl, fun _ _ h => by simp [new] at h, fun _ _ h => by simp [new] at h,
    fun _ _ h => by simp [new] at h, nodup_nil, fun _ _ h => by simp [new] at h⟩

section
variable (h : b.Inv printJson kind)
include h

theorem Inv.same_call {j : ℕ} {d : Call} (hc : b.calls[i]? = some c)
    (hd : b.calls[j]? = some d) (hid : c.id = d.id) : i = j := by
  rw [(h.call i c hc).id, (h.call j d hd).id] at hid
  have hsucc := requestId_injective kind hid
  omega

theorem Inv.unique : (b.calls.map Call.id).Nodup := by
  have hids : b.calls.map Call.id =
      (List.range b.calls.length).map fun i => requestId kind (i + 1) := by
    refine ext_getElem (by simp) fun i hi _ => ?_
    rw [length_map] at hi
    rw [getElem_map, getElem_map, getElem_range]
    exact (h.call i _ (List.getElem?_eq_getElem hi)).id
  rw [hids]
  refine nodup_range.map fun m n hmn => ?_
  have hsucc := requestId_injective kind hmn
  omega

theorem inv_allocate : (b.allocate kind).Inv printJson kind := by
  have hold : ∀ {j : ℕ} {d : Call}, b.calls[j]? = some d → (b.allocate kind).calls[j]? = some d := by
    intro j d hd
    exact getElem?_snoc.mpr (.inl hd)
  refine ⟨?_, ?_, ?_, ?_, h.once, ?_⟩
  · show b.nextId + 1 = (b.calls ++ [_]).length
    rw [length_append, length_singleton, h.count]
  · intro j d hd
    rcases getElem?_snoc.mp hd with hd | ⟨rfl, rfl⟩
    · obtain ⟨hid, hfresh, hsender, hresponse, hdone⟩ := h.call j d hd
      exact ⟨hid, hfresh, hsender, hresponse, hdone⟩
    · refine ⟨by rw [h.count], fun _ => rfl, fun hphase => ?_, fun _ hr => ?_, fun r hr => ?_⟩
      · rcases hphase with hphase | hphase <;> cases hphase
      · cases hr
      · obtain ⟨d, hd⟩ := h.listed _ r hr
        simp at hd
  · intro id j hj
    obtain ⟨d, hd, hrest⟩ := h.entry id j hj
    exact ⟨d, hold hd, hrest⟩
  · intro j r hr
    obtain ⟨d, hd⟩ := h.listed j r hr
    exact ⟨d, hold hd⟩
  · intro j r hr
    refine (h.own j r hr).imp_right (Or.imp_right ?_)
    rintro ⟨d, hd, hown⟩
    exact ⟨d, hold hd, hown⟩

theorem Inv.change (hc : b.calls[i]? = some c) {c' : Call} {b' : Backend}
    (hnext : b'.nextId = b.nextId) (hcalls : b'.calls = b.calls.set i c')
    (hinbound : ∀ value ∈ b.inbound, value ∈ b'.inbound) (hcompleted : ∀ j response, j ≠ i →
      ((j, response) ∈ b'.completed ↔ (j, response) ∈ b.completed))
    (hpending : ∀ id j, j ≠ i → (b'.pending.lookup id = some j ↔ b.pending.lookup id = some j))
    (hcall : b'.CallInv printJson kind i c') (hentry : ∀ id, b'.pending.lookup id = some i →
      c'.id = id ∧ c'.phase ≠ .allocated ∧ c'.received = none)
    (honce : (b'.completed.map Prod.fst).Nodup)
    (hown : ∀ response, (i, response) ∈ b'.completed → response = .error .closed ∨
      (∃ message, response = .error (.transport message)) ∨
        b'.OwnResponse printJson c'.id response) : b'.Inv printJson kind := by
  have hget : ∀ j d, b'.calls[j]? = some d ↔
      j = i ∧ d = c' ∨ j ≠ i ∧ b.calls[j]? = some d := by
    intro j d
    rw [hcalls]
    exact getElem?_slot hc
  have hself : b'.calls[i]? = some c' := (hget i c').mpr (.inl ⟨rfl, rfl⟩)
  have hmono : ∀ id response, b.OwnResponse printJson id response →
      b'.OwnResponse printJson id response := by
    rintro id response ⟨value, hvalue, hrest⟩
    exact ⟨value, hinbound value hvalue, hrest⟩
  refine ⟨?_, ?_, ?_, ?_, honce, ?_⟩
  · rw [hnext, hcalls, length_set, h.count]
  · intro j d hd
    rcases (hget j d).mp hd with ⟨rfl, rfl⟩ | ⟨hj, hd'⟩
    · exact hcall
    · obtain ⟨hid, hfresh, hsender, hresponse, hdone⟩ := h.call j d hd'
      exact ⟨hid, hfresh, fun hp hr => (hpending _ j hj).mpr (hsender hp hr),
        fun r hr => hmono _ r (hresponse r hr), fun r hr => hdone r ((hcompleted j r hj).mp hr)⟩
  · intro id j hlook
    by_cases hj : j = i
    · subst hj
      exact ⟨c', hself, hentry id hlook⟩
    · obtain ⟨d, hd, hrest⟩ := h.entry id j ((hpending id j hj).mp hlook)
      exact ⟨d, (hget j d).mpr (.inr ⟨hj, hd⟩), hrest⟩
  · intro j r hr
    by_cases hj : j = i
    · subst hj
      exact ⟨c', hself⟩
    · obtain ⟨d, hd⟩ := h.listed j r ((hcompleted j r hj).mp hr)
      exact ⟨d, (hget j d).mpr (.inr ⟨hj, hd⟩)⟩
  · intro j r hr
    by_cases hj : j = i
    · subst hj
      refine (hown r hr).imp_right (Or.imp_right fun hresponse => ?_)
      exact ⟨c', hself, hresponse⟩
    · refine (h.own j r ((hcompleted j r hj).mp hr)).imp_right (Or.imp_right ?_)
      rintro ⟨d, hd, hresponse⟩
      exact ⟨d, (hget j d).mpr (.inr ⟨hj, hd⟩), hmono _ r hresponse⟩

theorem not_completed (hc : b.calls[i]? = some c)
    (hphase : ∀ response, c.phase ≠ .done response) (response : Response) :
    (i, response) ∉ b.completed := fun hmem => hphase response ((h.call i c hc).done response hmem)

end

variable {received : Option Response}

theorem inv_register (h : b.Inv printJson kind) {id : Text}
    (hc : b.calls[i]? = some ⟨id, .allocated, received⟩) : Inv printJson kind
      { b.put i ⟨id, .writing, received⟩ with pending := b.pending.insert id i } := by
  have hcall := h.call i _ hc
  have hnone : received = none := hcall.fresh rfl
  refine h.change hc rfl rfl (fun _ hv => hv) (fun _ _ _ => Iff.rfl) ?_ ?_ ?_ h.once ?_
  · intro id' j hj
    rw [lookup_insert_ite]
    split
    · next hid =>
      subst hid
      constructor
      · intro hlook
        exact absurd (Option.some.inj hlook).symm hj
      · intro hlook
        obtain ⟨d, hd, hdid, -⟩ := h.entry _ j hlook
        exact absurd (h.same_call hd hc hdid) hj
    · rfl
  · refine ⟨hcall.id, (nofun), fun _ _ => ?_, hcall.response,
      fun r hr => absurd hr (not_completed h hc (nofun) r)⟩
    rw [lookup_insert_ite, if_pos rfl]
  · intro id' hlook
    rw [lookup_insert_ite] at hlook
    split at hlook
    · next hid => exact ⟨hid.symm, (nofun), hnone⟩
    · obtain ⟨d, hd, hdid, hphase, -⟩ := h.entry id' i hlook
      rw [hc] at hd
      cases hd
      exact absurd rfl hphase
  · exact fun r hr => absurd hr (not_completed h hc (nofun) r)

theorem inv_written (h : b.Inv printJson kind) {id : Text}
    (hc : b.calls[i]? = some ⟨id, .writing, received⟩) :
    (b.put i ⟨id, .waiting, received⟩).Inv printJson kind := by
  have hcall := h.call i _ hc
  have hno := not_completed h hc (nofun)
  refine h.change hc rfl rfl (fun _ hv => hv)
    (fun _ _ _ => Iff.rfl) (fun _ _ _ => Iff.rfl) ?_ ?_ h.once (fun r hr => absurd hr (hno r))
  · exact ⟨hcall.id, (nofun), fun _ => hcall.sender (.inl rfl),
      hcall.response, fun r hr => absurd hr (hno r)⟩
  · intro id' hlook
    obtain ⟨d, hd, hdid, -, hnone⟩ := h.entry id' i hlook
    rw [hc] at hd
    cases hd
    exact ⟨hdid, (nofun), hnone⟩

theorem inv_finish (h : b.Inv printJson kind) (hc : b.calls[i]? = some c)
    (hactive : c.phase = .writing ∨ c.phase = .waiting) {response : Response}
    (hresponse : response = .error .closed ∨ (∃ message, response = .error (.transport message)) ∨
      b.OwnResponse printJson c.id response) : (b.finish i c response).Inv printJson kind := by
  have hcall := h.call i c hc
  have hno : ∀ r, (i, r) ∉ b.completed := by
    refine not_completed h hc fun r hphase => ?_
    rw [hphase] at hactive
    rcases hactive with hactive | hactive <;> cases hactive
  have hmem : ∀ j r, (j, r) ∈ (b.finish i c response).completed ↔
      (j, r) ∈ b.completed ∨ j = i ∧ r = response := by
    intro j r
    show (j, r) ∈ b.completed ++ [(i, response)] ↔ _
    simp
  refine h.change hc rfl rfl (fun _ hv => hv) ?_ (fun _ _ _ => Iff.rfl) ?_ ?_ ?_ ?_
  · intro j r hj
    rw [hmem]
    exact or_iff_left fun hboth => hj hboth.1
  · refine ⟨hcall.id, (nofun), fun hphase => ?_, hcall.response, ?_⟩
    · rcases hphase with hphase | hphase <;> cases hphase
    · intro r hr
      rcases (hmem i r).mp hr with hold | ⟨-, rfl⟩
      · exact absurd hold (hno r)
      · rfl
  · intro id hlook
    obtain ⟨d, hd, hdid, -, hnone⟩ := h.entry id i hlook
    rw [hc] at hd
    cases hd
    exact ⟨hdid, (nofun), hnone⟩
  · show ((b.completed ++ [(i, response)]).map Prod.fst).Nodup
    rw [map_append, nodup_append]
    refine ⟨h.once, nodup_singleton _, ?_⟩
    intro j hj k hk
    rw [map_singleton, mem_singleton] at hk
    obtain ⟨⟨j', r⟩, hr, rfl⟩ := mem_map.mp hj
    rintro rfl
    obtain rfl : j' = i := hk
    exact hno r hr
  · intro r hr
    rcases (hmem i r).mp hr with hold | ⟨-, rfl⟩
    · exact absurd hold (hno r)
    · exact hresponse

/-! ## Inbound values -/

theorem inv_inbound (h : b.Inv printJson kind) (value : Json) :
    Inv printJson kind { b with inbound := b.inbound ++ [value] } := by
  have hmono : ∀ id response, b.OwnResponse printJson id response →
      OwnResponse printJson { b with inbound := b.inbound ++ [value] } id response := by
    rintro id response ⟨v, hv, hrest⟩
    exact ⟨v, mem_append_left _ hv, hrest⟩
  refine ⟨h.count, ?_, h.entry, h.listed, h.once, ?_⟩
  · intro j d hd
    obtain ⟨hid, hfresh, hsender, hresponse, hdone⟩ := h.call j d hd
    exact ⟨hid, hfresh, hsender, fun r hr => hmono _ r (hresponse r hr), hdone⟩
  · intro j r hr
    refine (h.own j r hr).imp_right (Or.imp_right ?_)
    rintro ⟨d, hd, hown⟩
    exact ⟨d, hd, hmono _ r hown⟩

theorem inv_notify (h : b.Inv printJson kind) (notification : IncomingServerNotification) :
    (b.notify notification).Inv printJson kind :=
  ⟨h.count, fun j d hd =>
    let ⟨hid, hfresh, hsender, hresponse, hdone⟩ := h.call j d hd
    ⟨hid, hfresh, hsender, hresponse, hdone⟩, h.entry, h.listed, h.once, h.own⟩

theorem inv_deliver (h : b.Inv printJson kind) {id : Text} {value : Json}
    (hvalue : value ∈ b.inbound) (hid : idOf value = some id) :
    (b.deliverResponse printJson id value).Inv printJson kind := by
  unfold deliverResponse
  cases hlook : b.pending.lookup id with
  | none => exact h
  | some i =>
    obtain ⟨c, hc, hcid, hphase, hnone⟩ := h.entry id i hlook
    have hcall := h.call i c hc
    refine h.change hc rfl (modify_slot hc _) (fun _ hv => hv) (fun _ _ _ => Iff.rfl) ?_ ?_ ?_
      h.once ?_
    · intro id' j hj
      rw [lookup_erase_ite]
      split
      · next heq =>
        subst heq
        rw [hlook]
        refine iff_of_false (nofun) fun hsome => ?_
        exact hj (Option.some.inj hsome).symm
      · rfl
    · refine ⟨hcall.id, fun hp => absurd hp hphase, fun _ hr => (by cases hr), ?_, hcall.done⟩
      intro r hr
      cases hr
      exact ⟨value, hvalue, hid.trans (congrArg some hcid.symm), rfl⟩
    · intro id' hlook'
      rw [lookup_erase_ite] at hlook'
      split at hlook'
      · cases hlook'
      · next hne =>
        obtain ⟨d, hd, hdid, -⟩ := h.entry id' i hlook'
        rw [hc] at hd
        cases hd
        exact absurd (hdid.symm.trans hcid) hne
    · intro r hr
      refine (h.own i r hr).imp_right (Or.imp_right ?_)
      rintro ⟨d, hd, hown⟩
      rw [hc] at hd
      cases hd
      exact hown

/-! ## One step -/

variable {registry : KnownVariantRegistry} {b' : Backend} {action : Action}

variable (printJson kind registry b) in
theorem dispatch_cases (value : Json) : dispatchIncoming printJson kind registry b value = b ∨
      (∃ notification, dispatchIncoming printJson kind registry b value = b.notify notification) ∨
      ∃ id, idOf value = some id ∧
        dispatchIncoming printJson kind registry b value =
          b.deliverResponse printJson id value := by
  unfold dispatchIncoming
  cases hid : idOf value with
  | none =>
    cases methodOf value with
    | none => exact .inl (by cases kind <;> rfl)
    | some method => exact .inr (.inl (by cases kind <;> exact ⟨_, rfl⟩))
  | some id =>
    cases methodOf value with
    | none => exact .inr (.inr ⟨id, rfl, by cases kind <;> rfl⟩)
    | some method =>
      by_cases hmem : id ∈ b.pending
      · exact .inr (.inr ⟨id, rfl, by cases kind <;> simp [hmem]⟩)
      · cases kind with
        | process => exact .inr (.inr ⟨id, rfl, rfl⟩)
        | codex | claude => exact .inr (.inl ⟨_, if_neg hmem⟩)

theorem inv_step (h : b.Inv printJson kind)
    (hstep : b.stepOption printJson kind registry action = some b') : b'.Inv printJson kind := by
  cases action with
  | allocate =>
    cases hstep
    exact inv_allocate h
  | register i =>
    simp only [stepOption] at hstep
    split at hstep
    · next hc =>
      cases hstep
      exact inv_register h hc
    · cases hstep
  | written i =>
    simp only [stepOption] at hstep
    split at hstep
    · next hc =>
      cases hstep
      exact inv_written h hc
    · cases hstep
  | writeFails i error =>
    simp only [stepOption] at hstep
    split at hstep
    · next hc =>
      rw [ite_none_right_eq_some, Option.some.injEq] at hstep
      obtain ⟨herror, rfl⟩ := hstep
      refine inv_finish h hc (.inl rfl) ?_
      cases error with
      | closed => exact .inl rfl
      | transport message => exact .inr (.inl ⟨message, rfl⟩)
      | rejected message => exact absurd herror (fun hfalse => hfalse)
    · cases hstep
  | receive value =>
    simp only [stepOption, ite_none_left_eq_some, Option.some.injEq] at hstep
    obtain ⟨-, rfl⟩ := hstep
    have hin := inv_inbound h value
    rcases dispatch_cases printJson kind { b with inbound := b.inbound ++ [value] } registry
        value with
      hsame | ⟨notification, hnotify⟩ | ⟨id, hid, hdeliver⟩
    · rw [hsame]
      exact hin
    · rw [hnotify]
      exact inv_notify hin notification
    · rw [hdeliver]
      exact inv_deliver hin (mem_append_right _ (mem_singleton_self value)) hid
  | readerEnds =>
    simp only [stepOption, ite_none_left_eq_some, Option.some.injEq] at hstep
    obtain ⟨-, rfl⟩ := hstep
    exact ⟨h.count, fun j d hd =>
      ⟨(h.call j d hd).id, (h.call j d hd).fresh, (h.call j d hd).sender,
        (h.call j d hd).response, (h.call j d hd).done⟩, h.entry, h.listed, h.once, h.own⟩
  | takeResponse i =>
    simp only [stepOption] at hstep
    split at hstep
    · next response hc =>
      cases hstep
      exact inv_finish h hc (.inr rfl) (.inr (.inr ((h.call i _ hc).response response rfl)))
    · cases hstep
  | senderGone i =>
    simp only [stepOption] at hstep
    split at hstep
    · next hc =>
      simp only [ite_none_left_eq_some, Option.some.injEq] at hstep
      obtain ⟨-, rfl⟩ := hstep
      exact inv_finish h hc (.inr rfl) (.inl rfl)
    · cases hstep

/-! ## Entries and the calls that wait for them -/

def Guarded (b : Backend) : Prop :=
  ∀ id i, b.pending.lookup id = some i → b.readerEnded = false ∧
    ∃ c, b.calls[i]? = some c ∧ c.id = id ∧ (c.phase = .writing ∨ c.phase = .waiting)

theorem Inv.matched_iff (h : b.Inv printJson kind) : b.Matched printJson ↔ b.Guarded := by
  refine ⟨Matched.entries, fun hg => ⟨h.unique, h.once, h.own, hg, fun hended i c _ _ => ?_⟩⟩
  refine .inr fun hlook => ?_
  have hrunning := (hg c.id i hlook).1
  rw [hended] at hrunning
  cases hrunning

theorem Guarded.change_iff (hg : b.Guarded) (hc : b.calls[i]? = some c) {c' : Call}
    (hcalls : b'.calls = b.calls.set i c') (hreader : b'.readerEnded = b.readerEnded)
    (hpending : ∀ id j, j ≠ i → (b'.pending.lookup id = some j ↔ b.pending.lookup id = some j)) :
    b'.Guarded ↔ ∀ id, b'.pending.lookup id = some i →
      b.readerEnded = false ∧ c'.id = id ∧ (c'.phase = .writing ∨ c'.phase = .waiting) := by
  have hget : ∀ j d, b'.calls[j]? = some d ↔
      j = i ∧ d = c' ∨ j ≠ i ∧ b.calls[j]? = some d := by
    intro j d
    rw [hcalls]
    exact getElem?_slot hc
  constructor
  · intro hg' id hlook
    obtain ⟨hrunning, d, hd, hrest⟩ := hg' id i hlook
    rcases (hget i d).mp hd with ⟨-, rfl⟩ | ⟨hne, -⟩
    · exact ⟨hreader ▸ hrunning, hrest⟩
    · exact absurd rfl hne
  · intro hself id j hlook
    rw [hreader]
    by_cases hj : j = i
    · subst hj
      obtain ⟨hrunning, hrest⟩ := hself id hlook
      exact ⟨hrunning, c', (hget j c').mpr (.inl ⟨rfl, rfl⟩), hrest⟩
    · obtain ⟨hrunning, d, hd, hrest⟩ := hg id j ((hpending id j hj).mp hlook)
      exact ⟨hrunning, d, (hget j d).mpr (.inr ⟨hj, hd⟩), hrest⟩

theorem guarded_allocate (hg : b.Guarded) : (b.allocate kind).Guarded := by
  intro id i hlook
  obtain ⟨hrunning, c, hc, hrest⟩ := hg id i hlook
  refine ⟨hrunning, c, ?_, hrest⟩
  obtain ⟨hlt, -⟩ := List.getElem?_eq_some_iff.mp hc
  show (b.calls ++ [_])[i]? = some c
  rw [List.getElem?_append_left hlt, hc]

section
variable (h : b.Inv printJson kind)
include h

theorem guarded_register (hg : b.Guarded) {id : Text}
    (hc : b.calls[i]? = some ⟨id, .allocated, received⟩) :
    Guarded { b.put i ⟨id, .writing, received⟩ with pending := b.pending.insert id i } ↔
      b.readerEnded = false := by
  have hlook : ∀ id', (b.pending.insert id i).lookup id' =
      if id' = id then some i else b.pending.lookup id' := fun id' => lookup_insert_ite id id' i _
  have hself : ∀ id', (b.pending.insert id i).lookup id' = some i → id' = id := by
    intro id' hlook'
    rw [hlook] at hlook'
    split at hlook'
    · next hid => exact hid
    · obtain ⟨d, hd, -, hphase, -⟩ := h.entry id' i hlook'
      rw [hc] at hd
      cases hd
      exact absurd rfl hphase
  refine Iff.trans (hg.change_iff hc rfl rfl ?_) ?_
  · intro id' j hj
    rw [hlook]
    split
    · next hid =>
      subst hid
      refine iff_of_false (fun heq => hj (Option.some.inj heq).symm) fun hold => ?_
      obtain ⟨d, hd, hdid, -⟩ := h.entry _ j hold
      exact hj (h.same_call hd hc hdid)
    · rfl
  · constructor
    · intro hall
      have hthere : (b.pending.insert id i).lookup id = some i := by
        rw [hlook, if_pos rfl]
      exact (hall id hthere).1
    · intro hrunning id' hlook'
      exact ⟨hrunning, (hself id' hlook').symm, .inl rfl⟩

theorem guarded_finish (hg : b.Guarded) (hc : b.calls[i]? = some c)
    (hactive : c.phase = .writing ∨ c.phase = .waiting) (response : Response) :
    (b.finish i c response).Guarded ↔ c.received ≠ none := by
  refine Iff.trans (hg.change_iff hc rfl rfl fun _ _ _ => Iff.rfl) ?_
  constructor
  · intro hall hnone
    obtain ⟨-, -, hphase⟩ := hall c.id ((h.call i c hc).sender hactive hnone)
    rcases hphase with hphase | hphase <;> cases hphase
  · intro hsome id hlook
    obtain ⟨d, hd, -, -, hnone⟩ := h.entry id i hlook
    rw [hc] at hd
    cases hd
    exact absurd hnone hsome

theorem guarded_deliver (hg : b.Guarded) (id : Text) (value : Json) :
    (b.deliverResponse printJson id value).Guarded := by
  unfold deliverResponse
  cases hlook : b.pending.lookup id with
  | none => exact hg
  | some i =>
    obtain ⟨c, hc, hcid, -⟩ := h.entry id i hlook
    have herase : ∀ id', (b.pending.erase id).lookup id' =
        if id' = id then none else b.pending.lookup id' := fun id' => lookup_erase_ite id id' _
    refine Iff.mpr (hg.change_iff hc (modify_slot hc _) rfl ?_) ?_
    · intro id' j hj
      rw [herase]
      split
      · next heq =>
        subst heq
        rw [hlook]
        refine iff_of_false (nofun) fun hsome => ?_
        exact hj (Option.some.inj hsome).symm
      · rfl
    · intro id' hlook'
      rw [herase] at hlook'
      split at hlook'
      · cases hlook'
      · next hne =>
        obtain ⟨d, hd, hdid, -⟩ := h.entry id' i hlook'
        rw [hc] at hd
        cases hd
        exact absurd (hdid.symm.trans hcid) hne

theorem guarded_step (hg : b.Guarded)
    (hstep : b.stepOption printJson kind registry action = some b') :
    b'.Guarded ↔ b.Orderly action := by
  cases action with
  | allocate =>
    cases hstep
    exact iff_of_true (guarded_allocate hg) trivial
  | register i =>
    simp only [stepOption] at hstep
    split at hstep
    · next hc =>
      cases hstep
      exact guarded_register h hg hc
    · cases hstep
  | written i =>
    simp only [stepOption] at hstep
    split at hstep
    · next id received hc =>
      cases hstep
      refine iff_of_true (Iff.mpr (hg.change_iff hc rfl rfl fun _ _ _ => Iff.rfl)
        fun id' hlook => ?_) trivial
      obtain ⟨hrunning, d, hd, hdid, -⟩ := hg id' i hlook
      rw [hc] at hd
      cases hd
      exact ⟨hrunning, hdid, .inr rfl⟩
    · cases hstep
  | writeFails i error =>
    simp only [stepOption] at hstep
    split at hstep
    · next hc =>
      rw [ite_none_right_eq_some, Option.some.injEq] at hstep
      obtain ⟨-, rfl⟩ := hstep
      rw [guarded_finish h hg hc (.inl rfl)]
      simp [Orderly, hc]
    · cases hstep
  | receive value =>
    simp only [stepOption, ite_none_left_eq_some, Option.some.injEq] at hstep
    obtain ⟨-, rfl⟩ := hstep
    refine iff_of_true ?_ trivial
    have hin := inv_inbound h value
    rcases dispatch_cases printJson kind { b with inbound := b.inbound ++ [value] } registry
        value with
      hsame | ⟨notification, hnotify⟩ | ⟨id, -, hdeliver⟩
    · rw [hsame]
      exact hg
    · rw [hnotify]
      exact hg
    · rw [hdeliver]
      exact guarded_deliver hin hg id value
  | readerEnds =>
    simp only [stepOption, ite_none_left_eq_some, Option.some.injEq] at hstep
    obtain ⟨-, rfl⟩ := hstep
    constructor
    · intro hg' id
      refine eq_none_iff_forall_ne_some.mpr fun i hlook => ?_
      cases (hg' id i hlook).1
    · intro hempty id i hlook
      have hnone := hempty id
      rw [show b.pending.lookup id = some i from hlook] at hnone
      cases hnone
  | takeResponse i =>
    simp only [stepOption] at hstep
    split at hstep
    · next hc =>
      cases hstep
      exact iff_of_true ((guarded_finish h hg hc (.inr rfl) _).mpr (by simp)) trivial
    · cases hstep
  | senderGone i =>
    simp only [stepOption] at hstep
    split at hstep
    · next hc =>
      rw [ite_none_left_eq_some] at hstep
      exact absurd ((h.call i _ hc).sender (.inr rfl) rfl) hstep.1
    · cases hstep

end

theorem requests_matched {actions : List Action}
    (hrun : actions.foldlM (step printJson kind registry) new = .ok b) :
    (∀ pre u, pre <+: actions → pre.foldlM (step printJson kind registry) new = .ok u →
        u.Matched printJson) ↔
      ∀ pre action u, pre ++ [action] <+: actions →
        pre.foldlM (step printJson kind registry) new = .ok u → u.Orderly action := by
  have hkeep : ∀ (u : Backend) (a : Action) (v : Backend), u.Inv printJson kind →
      step printJson kind registry u a = .ok v → v.Inv printJson kind := fun u a v hu ha =>
    inv_step hu (step_eq_ok.mp ha)
  have hnew : new.Guarded := fun _ _ hlook => by simp [new] at hlook
  refine always_iff_given hkeep (fun u a v hu hm ha => ?_) inv_new ?_ hrun
  · have hstep := step_eq_ok.mp ha
    rw [(inv_step hu hstep).matched_iff]
    exact guarded_step hu (hu.matched_iff.mp hm) hstep
  · have hinv : new.Inv printJson kind := inv_new
    exact hinv.matched_iff.mpr hnew

end

def answer : Json :=
  .object [("id".toList, .string "r1".toList), ("result".toList, .bool true)]

def answeredRequest : List Action :=
  [.allocate, .register 0, .written 0, .receive answer, .takeResponse 0, .readerEnds]

theorem requests_matched_answered :
    ∃ b, answeredRequest.foldlM (step (fun _ => []) .codex ∅) new = .ok b ∧
      b.completed.length = 1 ∧
      ((∀ pre u, pre <+: answeredRequest →
          pre.foldlM (step (fun _ => []) .codex ∅) new = .ok u → u.Matched fun _ => []) ↔
        ∀ pre action u, pre ++ [action] <+: answeredRequest →
          pre.foldlM (step (fun _ => []) .codex ∅) new = .ok u → u.Orderly action) := by
  have hrun : ∃ b, answeredRequest.foldlM (step (fun _ => []) .codex ∅) new = .ok b ∧
      b.completed.length = 1 := ⟨_, rfl, rfl⟩
  obtain ⟨b, hb, hone⟩ := hrun
  exact ⟨b, hb, hone, requests_matched hb⟩

/-- The reader ends behind a request that has been written, and the request waits for
ever. -/
theorem ended_reader_leaves_request :
    ∃ b, [Action.allocate, .register 0, .written 0, .readerEnds].foldlM
        (step (fun _ => []) .codex ∅) new = .ok b ∧
      b.readerEnded = true ∧ b.pending.lookup "r1".toList = some 0 ∧
      b.calls[0]?.map Call.phase = some .waiting ∧ ¬b.Matched (fun _ => []) := by
  have hrun : ∃ b, [Action.allocate, .register 0, .written 0, .readerEnds].foldlM
      (step (fun _ => []) .codex ∅) new = .ok b ∧ b.readerEnded = true ∧
        b.pending.lookup "r1".toList = some 0 ∧ b.calls[0]?.map Call.phase = some .waiting :=
    ⟨_, rfl, rfl, by decide, rfl⟩
  obtain ⟨b, hb, hended, hlook, hphase⟩ := hrun
  refine ⟨b, hb, hended, hlook, hphase, fun hm => ?_⟩
  have hrunning := (hm.entries _ _ hlook).1
  rw [hended] at hrunning
  cases hrunning

end Backend

end Codex.AgentBackend
