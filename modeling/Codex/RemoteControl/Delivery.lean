import Codex.RemoteControl.Outbound

/-!
# What reaches the remote clients

The envelopes numbered for a stream are, in order, those dropped on an acknowledgement and
those buffered. What a connection sends of a stream is one stretch of them that starts
within what was dropped before or right behind it (`Outbound.Inv`). The numbers are
consecutive up to the point where they saturate.
-/

namespace Codex.RemoteControl

open Foundation List Option

section
variable {ε β : Type}

def ofKey (key : ClientKey) (l : List (ServerEnvelope ε)) : List (ServerEnvelope ε) :=
  l.filter fun envelope => envelope.key = key

@[simp] theorem ofKey_nil (key : ClientKey) : ofKey key ([] : List (ServerEnvelope ε)) = [] := rfl

theorem ofKey_append (key : ClientKey) (l l' : List (ServerEnvelope ε)) :
    ofKey key (l ++ l') = ofKey key l ++ ofKey key l' := filter_append ..

variable (e : ServerEnvelope ε)

theorem ofKey_cons (key : ClientKey) (l : List (ServerEnvelope ε)) :
    ofKey key (e :: l) = ofKey key [e] ++ ofKey key l := ofKey_append key [e] l

variable {key : ClientKey} {l : List (ServerEnvelope ε)}

theorem ofKey_self (h : ∀ e ∈ l, e.key = key) : ofKey key l = l :=
  filter_eq_self.mpr fun e he => by simp [h e he]

theorem ofKey_other (h : ∀ e ∈ l, e.key ≠ key) : ofKey key l = [] :=
  filter_eq_nil_iff.mpr fun e he => by simp [h e he]

variable {e : ServerEnvelope ε}

theorem key_of_mem_ofKey (h : e ∈ ofKey key l) : e.key = key := by
  simpa using (mem_filter.mp h).2

def Acked (acks : List (ClientKey × ℕ)) (e : ServerEnvelope ε) : Prop :=
  ∃ n, (e.key, n) ∈ acks ∧ e.seqId ≤ n

theorem Acked.append {acks : List (ClientKey × ℕ)} (h : Acked acks e)
    (more : List (ClientKey × ℕ)) : Acked (acks ++ more) e := by
  obtain ⟨n, hn, hle⟩ := h
  exact ⟨n, mem_append_left more hn, hle⟩

/-! ## The buffer -/

namespace BoundedOutboundBuffer

def count (b : BoundedOutboundBuffer ε) : ℕ := total List.length b.bufferByStream

variable (b : BoundedOutboundBuffer ε)

theorem buffered_insert (key : ClientKey) :
    (b.insert e).buffered key = b.buffered key ++ ofKey key [e] := by
  unfold buffered insert
  simp only [lookup_insert_ite]
  by_cases h : key = e.key
  · subst h
    rw [if_pos rfl, ofKey_self (by simp)]
    rfl
  · rw [if_neg h, ofKey_other (by simpa using Ne.symm h), append_nil]

theorem count_insert : (b.insert e).count = b.count + 1 := by
  have hsum := total_insert List.length e.key (b.buffered e.key ++ [e]) b.bufferByStream
  have hlen : ((b.bufferByStream.lookup e.key).map List.length).getD 0 =
      (b.buffered e.key).length := by
    unfold buffered
    cases b.bufferByStream.lookup e.key <;> rfl
  rw [hlen, length_append, length_singleton] at hsum
  unfold count insert
  simp only
  omega

theorem popAcked_eq (n : ℕ) (buffer : List (ServerEnvelope ε)) (used : ℕ) : popAcked n buffer used =
      (buffer.dropWhile (·.seqId ≤ n), used - (buffer.takeWhile (·.seqId ≤ n)).length) := by
  induction buffer generalizing used with
  | nil => rfl
  | cons e buffer ih =>
    unfold popAcked
    by_cases h : e.seqId ≤ n
    · simp only [h, if_true, ih, decide_true, dropWhile_cons_of_pos,
        takeWhile_cons_of_pos, length_cons]
      rw [Nat.sub_sub, Nat.add_comm 1]
    · simp [h]

variable {b : BoundedOutboundBuffer ε}

theorem ack_of_lookup {key : ClientKey} {n : ℕ} {buffer : List (ServerEnvelope ε)}
    (h : b.bufferByStream.lookup key = some buffer) : b.ack key n =
      { bufferByStream :=
          if (popAcked n buffer b.used).1.isEmpty then b.bufferByStream.erase key
          else b.bufferByStream.insert key (popAcked n buffer b.used).1
        used := (popAcked n buffer b.used).2 } := by
  unfold ack
  rw [h]

theorem buffered_ack (key key' : ClientKey) (n : ℕ) : (b.ack key n).buffered key' =
      if key' = key then (b.buffered key).dropWhile (·.seqId ≤ n) else b.buffered key' := by
  unfold buffered ack
  cases hbuffer : b.bufferByStream.lookup key with
  | none =>
    by_cases h : key' = key
    · subst h
      simp [hbuffer]
    · simp [h]
  | some buffer =>
    simp only [popAcked_eq, getD_some]
    by_cases hempty : (buffer.dropWhile (·.seqId ≤ n)).isEmpty
    · rw [if_pos hempty, lookup_erase_ite]
      by_cases h : key' = key
      · rw [if_pos h, if_pos h, List.isEmpty_iff.mp hempty]
        rfl
      · rw [if_neg h, if_neg h]
    · rw [if_neg hempty, lookup_insert_ite]
      by_cases h : key' = key
      · rw [if_pos h, if_pos h]
        rfl
      · rw [if_neg h, if_neg h]

theorem counted_ack (h : b.used = b.count) (key : ClientKey) (n : ℕ) :
    (b.ack key n).used = (b.ack key n).count ∧ (b.ack key n).used ≤ b.used := by
  unfold ack
  cases hbuffer : b.bufferByStream.lookup key with
  | none => exact ⟨h, Nat.le_refl _⟩
  | some buffer =>
    have hsplit : (buffer.takeWhile (·.seqId ≤ n)).length +
        (buffer.dropWhile (·.seqId ≤ n)).length = buffer.length := by
      rw [← length_append, takeWhile_append_dropWhile]
    simp only [popAcked_eq]
    refine ⟨?_, Nat.sub_le _ _⟩
    unfold count at h ⊢
    simp only
    split
    · rename_i hempty
      have herase := total_erase List.length key b.bufferByStream
      rw [hbuffer, map_some, getD_some] at herase
      rw [List.isEmpty_iff] at hempty
      rw [hempty, length_nil] at hsplit
      omega
    · have hinsert := total_insert List.length key (buffer.dropWhile (·.seqId ≤ n))
        b.bufferByStream
      rw [hbuffer, map_some, getD_some] at hinsert
      omega

theorem ofKey_serverEnvelopes {keys : List ClientKey} (hkeys : keys.Perm b.bufferByStream.keys)
    (hown : ∀ key, ∀ e ∈ b.buffered key, e.key = key) (key : ClientKey) :
    ofKey key (b.serverEnvelopes keys) = b.buffered key := by
  have hflat : ∀ keys : List ClientKey, keys.Nodup →
      ofKey key (b.serverEnvelopes keys) = if key ∈ keys then b.buffered key else [] := by
    intro keys hnodup
    induction keys with
    | nil => rfl
    | cons key' keys ih =>
      obtain ⟨hnot, hnodup⟩ := nodup_cons.mp hnodup
      have hih := ih hnodup
      unfold serverEnvelopes at hih ⊢
      rw [flatMap_cons, ofKey_append, hih]
      by_cases hkey : key = key'
      · subst hkey
        simp [hnot, ofKey_self (hown key)]
      · rw [ofKey_other fun e he => by rw [hown key' e he]; exact Ne.symm hkey]
        simp [hkey]
  rw [hflat keys (hkeys.nodup_iff.mpr b.bufferByStream.keys_nodup)]
  split
  · rfl
  · rename_i hnot
    have hnone : b.bufferByStream.lookup key = none := by
      rw [AList.lookup_eq_none, AList.mem_keys, ← hkeys.mem_iff]
      exact hnot
    simp [buffered, hnone]

end BoundedOutboundBuffer

/-! ## The invariant -/

def Writer.HasRoom : Writer ε → Prop
  | .waiting true => True
  | .taken _ => True
  | _ => False

def Writer.ahead : Writer ε → List (ServerEnvelope ε)
  | .resending rest => rest
  | .sending envelope => [envelope]
  | _ => []

/-- Of the numbered envelopes, `after` are those the writer has still to send. -/
def Writer.Placed (key : ClientKey) (after : List (ServerEnvelope ε)) : Writer ε → Prop
  | .stopped => True
  | .started => True
  | w => after = ofKey key w.ahead

namespace Outbound

def buffered (s : Outbound ε) (key : ClientKey) : List (ServerEnvelope ε) :=
  s.state.outboundBuffer.buffered key

def numberedOf (s : Outbound ε) (key : ClientKey) : List (ServerEnvelope ε) :=
  ofKey key s.numbered

def sentOf (s : Outbound ε) (key : ClientKey) : List (ServerEnvelope ε) := ofKey key s.sent

def seqIds (n : ℕ) : List ℕ := (List.range' 1 n).map fun seqId => min seqId (UInt64.size - 1)

theorem seqIds_succ (n : ℕ) : seqIds (n + 1) = seqIds n ++ [min (n + 1) (UInt64.size - 1)] := by
  unfold seqIds
  rw [range'_1_concat, map_append, Nat.add_comm 1 n]
  rfl

structure Inv (s : Outbound ε) : Prop where
  counted : s.state.outboundBuffer.used = s.state.outboundBuffer.count
  bounded : s.state.outboundBuffer.used ≤ channelCapacity
  room : s.writer.HasRoom → s.state.outboundBuffer.used < channelCapacity
  next : ∀ key, s.state.nextSeqId key = min ((s.numberedOf key).length + 1) (UInt64.size - 1)
  numbers : ∀ key, (s.numberedOf key).map ServerEnvelope.seqId = seqIds (s.numberedOf key).length
  buffer : ∀ key, ∃ dropped, s.numberedOf key = dropped ++ s.buffered key ∧
    ∀ e ∈ dropped, Acked s.acks e
  started : s.writer = .started → s.sent = []
  stretch : ∀ key, ∃ before after, s.numberedOf key = before ++ s.sentOf key ++ after ∧
    (∀ e ∈ before, Acked s.acks e) ∧ s.writer.Placed key after

theorem Inv.new : Inv (Outbound.new : Outbound ε) := by
  refine ⟨rfl, Nat.zero_le _, fun h => h.elim, ?_, ?_, ?_, (nofun), ?_⟩
  · intro key
    rfl
  · intro key
    rfl
  · intro key
    exact ⟨[], rfl, by simp⟩
  · intro key
    exact ⟨[], [], rfl, by simp, trivial⟩

variable {s : Outbound ε} {writer : Writer ε}

theorem Inv.key_buffered (h : Inv s) (key : ClientKey) : ∀ e ∈ s.buffered key, e.key = key := by
  obtain ⟨dropped, hsplit, -⟩ := h.buffer key
  intro e he
  refine key_of_mem_ofKey (l := s.numbered) ?_
  have hmem := mem_append_right dropped he
  rwa [← hsplit] at hmem

theorem Inv.writes (h : Inv s) {sent : List (ServerEnvelope ε)}
    (hroom : writer.HasRoom → s.state.outboundBuffer.used < channelCapacity)
    (hstarted : writer = .started → sent = [])
    (hstretch : ∀ key, ∃ before after, s.numberedOf key = before ++ ofKey key sent ++ after ∧
      (∀ e ∈ before, Acked s.acks e) ∧ writer.Placed key after) :
    Inv { s with writer := writer, sent := sent } :=
  ⟨h.counted, h.bounded, hroom, h.next, h.numbers, h.buffer, hstarted, hstretch⟩

theorem Inv.sends (h : Inv s) (rest : List (ServerEnvelope ε)) (hahead : s.writer.ahead = e :: rest)
    (hwriter : ∀ key, writer.Placed key (ofKey key rest)) (hroom : ¬ writer.HasRoom)
    (hstarted : writer ≠ .started) : Inv { s with writer := writer, sent := s.sent ++ [e] } := by
  refine h.writes (fun hr => absurd hr hroom) (fun hw => absurd hw hstarted) fun key => ?_
  obtain ⟨before, after, hsplit, hacked, hplaced⟩ := h.stretch key
  have hafter : after = ofKey key [e] ++ ofKey key rest := by
    rw [← ofKey_cons, ← hahead]
    cases hw : s.writer with
    | stopped | started => simp [hw, Writer.ahead] at hahead
    | resending rest' => simpa [hw, Writer.Placed] using hplaced
    | looping | waiting c | taken q => simp [hw, Writer.ahead] at hahead
    | sending e' => simpa [hw, Writer.Placed] using hplaced
  refine ⟨before, ofKey key rest, ?_, hacked, hwriter key⟩
  rw [hsplit, hafter, ofKey_append, sentOf, List.append_assoc, List.append_assoc, List.append_assoc]

theorem Inv.idles (h : Inv s)
    (hwriter : ∀ key after, s.writer.Placed key after → writer.Placed key after)
    (hroom : writer.HasRoom → s.state.outboundBuffer.used < channelCapacity)
    (hstarted : writer ≠ .started) : Inv { s with writer := writer } := by
  refine h.writes hroom (fun hw => absurd hw hstarted) fun key => ?_
  obtain ⟨before, after, hsplit, hacked, hplaced⟩ := h.stretch key
  exact ⟨before, after, hsplit, hacked, hwriter key after hplaced⟩

theorem Inv.numbering (h : Inv s) {queued : QueuedServerEnvelope ε}
    (hwriter : s.writer = .taken queued) : Inv { s with
      state := (s.state.number queued).2
      writer := .sending (s.state.number queued).1
      numbered := s.numbered ++ [(s.state.number queued).1] } := by
  have hkey : (s.state.number queued).1.key = (queued.clientId, queued.streamId) := rfl
  have hnumbered : ∀ key, ofKey key (s.numbered ++ [(s.state.number queued).1]) =
      s.numberedOf key ++ ofKey key [(s.state.number queued).1] := by
    intro key
    exact ofKey_append key _ _
  have hone : ∀ key, key ≠ (queued.clientId, queued.streamId) →
      ofKey key [(s.state.number queued).1] = [] := by
    intro key hne
    exact ofKey_other (by simpa [hkey] using Ne.symm hne)
  have hself : ofKey (queued.clientId, queued.streamId) [(s.state.number queued).1] =
      [(s.state.number queued).1] := ofKey_self (by simp [hkey])
  have hlt : s.state.outboundBuffer.used < channelCapacity := h.room (by rw [hwriter]; trivial)
  refine ⟨?_, hlt, fun hr => hr.elim, ?_, ?_, ?_, (nofun), ?_⟩
  · show s.state.outboundBuffer.used + 1 = (s.state.outboundBuffer.insert _).count
    rw [BoundedOutboundBuffer.count_insert, h.counted]
  · intro key
    show (((s.state.nextSeqIdByStream.insert _ _).lookup key).getD 1) = min (List.length
      (ofKey key (s.numbered ++ [(s.state.number queued).1])) + 1) (UInt64.size - 1)
    rw [lookup_insert_ite, hnumbered]
    by_cases hk : key = (queued.clientId, queued.streamId)
    · subst hk
      rw [if_pos rfl, getD_some, hself, h.next, length_append, length_singleton, saturatingSucc]
      omega
    · rw [if_neg hk, hone key hk, append_nil]
      exact h.next key
  · intro key
    show (ofKey key (s.numbered ++ [(s.state.number queued).1])).map ServerEnvelope.seqId =
      seqIds (ofKey key (s.numbered ++ [(s.state.number queued).1])).length
    rw [hnumbered]
    by_cases hk : key = (queued.clientId, queued.streamId)
    · subst hk
      rw [hself, map_append, length_append, length_singleton, seqIds_succ, h.numbers, ← h.next]
      rfl
    · rw [hone key hk, append_nil]
      exact h.numbers key
  · intro key
    obtain ⟨dropped, hsplit, hacked⟩ := h.buffer key
    refine ⟨dropped, ?_, hacked⟩
    show ofKey key (s.numbered ++ [(s.state.number queued).1]) =
      dropped ++ (s.state.outboundBuffer.insert _).buffered key
    rw [hnumbered, BoundedOutboundBuffer.buffered_insert, ← List.append_assoc, hsplit]
    rfl
  · intro key
    obtain ⟨before, after, hsplit, hacked, hplaced⟩ := h.stretch key
    rw [hwriter] at hplaced
    obtain rfl : after = [] := hplaced
    refine ⟨before, ofKey key [(s.state.number queued).1], ?_, hacked, rfl⟩
    show ofKey key (s.numbered ++ [(s.state.number queued).1]) = _
    rw [hnumbered, hsplit, append_nil]
    rfl

theorem Inv.receive (h : Inv s) (e : ClientEnvelope β) : Inv { s with
      state := s.state.receive e
      acks := s.acks ++ (WebsocketState.acked e).toList } := by
  have hnumbers : ∀ key, (s.state.receive e).nextSeqId key = s.state.nextSeqId key := by
    intro key
    unfold WebsocketState.receive
    split <;> rfl
  have hbuffer : ∀ key, ∃ popped,
      s.buffered key = popped ++ (s.state.receive e).outboundBuffer.buffered key ∧
        ∀ e' ∈ popped, Acked (s.acks ++ (WebsocketState.acked e).toList) e' := by
    intro key
    unfold WebsocketState.receive
    split
    · rename_i key' n hacked
      simp only [BoundedOutboundBuffer.buffered_ack]
      by_cases hk : key = key'
      · subst hk
        rw [if_pos rfl]
        refine ⟨(s.buffered key).takeWhile (·.seqId ≤ n), (takeWhile_append_dropWhile).symm, ?_⟩
        intro e' he'
        have hmem := (takeWhile_subset _) he'
        refine ⟨n, ?_, by simpa using mem_takeWhile_imp he'⟩
        rw [h.key_buffered key e' hmem]
        simp [hacked]
      · rw [if_neg hk]
        exact ⟨[], rfl, by simp⟩
    · exact ⟨[], rfl, by simp⟩
  have hcount : (s.state.receive e).outboundBuffer.used =
      (s.state.receive e).outboundBuffer.count ∧
      (s.state.receive e).outboundBuffer.used ≤ s.state.outboundBuffer.used := by
    unfold WebsocketState.receive
    split
    · exact BoundedOutboundBuffer.counted_ack h.counted _ _
    · exact ⟨h.counted, Nat.le_refl _⟩
  refine ⟨hcount.1, Nat.le_trans hcount.2 h.bounded,
    fun hr => Nat.lt_of_le_of_lt hcount.2 (h.room hr), ?_, h.numbers, ?_, h.started, ?_⟩
  · intro key
    rw [hnumbers]
    exact h.next key
  · intro key
    obtain ⟨dropped, hsplit, hacked⟩ := h.buffer key
    obtain ⟨popped, hpopped, hpoppedAcked⟩ := hbuffer key
    refine ⟨dropped ++ popped, ?_, ?_⟩
    · show s.numberedOf key = _
      rw [hsplit, hpopped, List.append_assoc]
      rfl
    · intro e' he'
      obtain hd | hp := mem_append.mp he'
      · exact (hacked e' hd).append _
      · exact hpoppedAcked e' hp
  · intro key
    obtain ⟨before, after, hsplit, hacked, hplaced⟩ := h.stretch key
    exact ⟨before, after, hsplit, fun e' he' => (hacked e' he').append _, hplaced⟩

theorem Inv.step {t : Outbound ε} {a : OutboundAction ε β} (h : Inv s) (hstep : s.step a = .ok t) :
    Inv t := by
  cases a with simp only [Outbound.step] at hstep
  | connect =>
    split at hstep <;> cases hstep
    refine h.writes (fun hr => hr.elim) (fun _ => rfl) fun key => ?_
    obtain ⟨dropped, hsplit, hacked⟩ := h.buffer key
    exact ⟨dropped, s.buffered key, by rw [hsplit, ofKey_nil, append_nil], hacked, trivial⟩
  | snapshot keys =>
    split at hstep
    · rename_i hwriter
      split at hstep <;> cases hstep
      rename_i hkeys
      refine h.writes (fun hr => hr.elim) (nofun) fun key => ?_
      obtain ⟨dropped, hsplit, hacked⟩ := h.buffer key
      refine ⟨dropped, s.buffered key, ?_, hacked, ?_⟩
      · rw [hsplit, h.started hwriter, ofKey_nil, append_nil]
      · exact (BoundedOutboundBuffer.ofKey_serverEnvelopes hkeys h.key_buffered key).symm
    · cases hstep
  | send =>
    split at hstep
    · rename_i e rest hwriter
      cases hstep
      exact h.sends rest (by rw [hwriter]; rfl) (fun key => rfl) id (nofun)
    · rename_i e hwriter
      cases hstep
      exact h.sends [] (by rw [hwriter]; rfl) (fun key => rfl) id (nofun)
    · cases hstep
  | resent =>
    split at hstep <;> cases hstep
    rename_i hwriter
    refine h.idles (fun key after hplaced => ?_) (fun hr => hr.elim) (nofun)
    rwa [hwriter] at hplaced
  | checkCapacity =>
    split at hstep <;> cases hstep
    rename_i hwriter
    refine h.idles (fun key after hplaced => ?_) (fun hr => ?_) (nofun)
    · rwa [hwriter] at hplaced
    · by_contra hnot
      simp [hnot, Writer.HasRoom] at hr
  | wake =>
    split at hstep <;> cases hstep
    rename_i hwriter
    refine h.idles (fun key after hplaced => ?_) (fun hr => hr.elim) (nofun)
    rwa [hwriter] at hplaced
  | take queued =>
    split at hstep <;> cases hstep
    rename_i hwriter
    refine h.idles (fun key after hplaced => ?_) (fun _ => ?_) (nofun)
    · rwa [hwriter] at hplaced
    · exact h.room (by rw [hwriter]; trivial)
  | number =>
    split at hstep <;> cases hstep
    rename_i queued hwriter
    exact h.numbering hwriter
  | disconnect arrived =>
    have hstop : Inv { s with writer := .stopped } :=
      h.idles (fun _ _ _ => trivial) (fun hr => hr.elim) (nofun)
    split at hstep
    · rename_i e rest hwriter
      cases hstep
      cases arrived with
      | true =>
        exact h.sends rest (by rw [hwriter]; rfl) (fun _ => trivial) id (nofun)
      | false => exact hstop
    · rename_i e hwriter
      cases hstep
      cases arrived with
      | true =>
        exact h.sends [] (by rw [hwriter]; rfl) (fun _ => trivial) id (nofun)
      | false => exact hstop
    · cases hstep
      exact hstop
    · cases hstep
  | receive e =>
    cases hstep
    exact h.receive e

end Outbound

/-! ## Numbers -/

def Consecutive (l : List ℕ) : Prop := l.IsChain fun a b => b = a + 1

theorem consecutive_range' (first n : ℕ) : Consecutive (List.range' first n) :=
  isChain_range' first n 1

theorem seqIds_stretch {l before mid : List (ServerEnvelope ε)}
    (after : List (ServerEnvelope ε)) (hl : l.map ServerEnvelope.seqId = List.range' 1 l.length)
    (hsplit : l = before ++ mid ++ after) :
    mid.map ServerEnvelope.seqId = List.range' (1 + before.length) mid.length := by
  subst hsplit
  rw [List.append_assoc, map_append, eq_comm, range'_eq_append_iff] at hl
  obtain ⟨k, hk, hbefore, hrest⟩ := hl
  have hlen := congrArg List.length hbefore
  rw [length_map, length_range'] at hlen
  subst hlen
  rw [map_append, Nat.mul_one, eq_comm, range'_eq_append_iff] at hrest
  obtain ⟨k, hk, hmid, -⟩ := hrest
  have hlen := congrArg List.length hmid
  rw [length_map, length_range'] at hlen
  rw [hmid, hlen]

namespace Outbound

/-- The counter is right and bounded, and nothing numbered is lost before it is
acknowledged. -/
structure Accounted (s : Outbound ε) : Prop where
  counted : s.state.outboundBuffer.used = s.state.outboundBuffer.count
  bounded : s.state.outboundBuffer.used ≤ channelCapacity
  kept : ∀ e ∈ s.numbered, ¬ Acked s.acks e → e ∈ s.buffered e.key

structure InOrder (s : Outbound ε) (key : ClientKey) : Prop where
  buffered : Consecutive ((s.buffered key).map ServerEnvelope.seqId)
  upToNext : ∀ e, (s.buffered key).getLast? = some e → e.seqId = s.state.nextSeqId key - 1
  sent : Consecutive ((s.sentOf key).map ServerEnvelope.seqId)
  fromOldest : ∀ first, (s.sentOf key).head? = some first →
    ∀ e ∈ s.numberedOf key, ¬ Acked s.acks e → first.seqId ≤ e.seqId

theorem Inv.accounted {s : Outbound ε} (h : Inv s) : Accounted s := by
  refine ⟨h.counted, h.bounded, fun e he hnot => ?_⟩
  obtain ⟨dropped, hsplit, hacked⟩ := h.buffer e.key
  have hmem : e ∈ s.numberedOf e.key := mem_filter.mpr ⟨he, by simp⟩
  rw [hsplit, mem_append] at hmem
  exact hmem.resolve_left fun hd => hnot (hacked e hd)

def Unsaturated (s : Outbound ε) (key : ClientKey) : Prop :=
  (s.numberedOf key).length < UInt64.size - 1

instance decidableUnsaturated (s : Outbound ε) (key : ClientKey) :
    Decidable (s.Unsaturated key) :=
  inferInstanceAs (Decidable ((s.numberedOf key).length < UInt64.size - 1))

theorem Inv.seqIds_eq {s : Outbound ε} (h : Inv s) {key : ClientKey} (hkey : s.Unsaturated key) :
    (s.numberedOf key).map ServerEnvelope.seqId = List.range' 1 (s.numberedOf key).length := by
  rw [h.numbers, seqIds]
  conv_rhs => rw [← map_id (List.range' 1 (s.numberedOf key).length)]
  refine map_congr_left fun n hn => ?_
  unfold Unsaturated at hkey
  rw [mem_range'_1] at hn
  simp only [id_eq]
  omega

theorem Inv.inOrder {s : Outbound ε} (h : Inv s) {key : ClientKey} (hkey : s.Unsaturated key) :
    InOrder s key := by
  have hseq := h.seqIds_eq hkey
  obtain ⟨dropped, hdropped, -⟩ := h.buffer key
  obtain ⟨before, after, hsplit, hacked, -⟩ := h.stretch key
  have hbuffered := seqIds_stretch [] hseq (by rw [hdropped, append_nil])
  have hsent := seqIds_stretch after hseq hsplit
  refine ⟨?_, ?_, ?_, ?_⟩
  · rw [hbuffered]
    exact consecutive_range' _ _
  · intro e he
    have hlast := congrArg List.getLast? hbuffered
    rw [List.getLast?_map, he, List.getLast?_range'] at hlast
    have hlen := congrArg List.length hdropped
    rw [length_append] at hlen
    have hnext := h.next key
    unfold Unsaturated at hkey
    split at hlast
    · cases hlast
    · simp only [map_some, Option.some.injEq] at hlast
      omega
  · rw [hsent]
    exact consecutive_range' _ _
  · intro first hfirst e he hnot
    have hhead := congrArg List.head? hsent
    rw [List.head?_map, hfirst] at hhead
    have hrest := seqIds_stretch [] hseq (by rw [append_nil, ← List.append_assoc]; exact hsplit)
    have hmem : e ∈ s.sentOf key ++ after := by
      rw [hsplit, List.append_assoc, mem_append] at he
      exact he.resolve_left fun hb => hnot (hacked e hb)
    have hseqId := mem_map_of_mem (f := ServerEnvelope.seqId) hmem
    rw [hrest, mem_range'_1] at hseqId
    have hnonempty : (s.sentOf key).length ≠ 0 := by
      intro hzero
      rw [length_eq_zero_iff] at hzero
      simp [hzero] at hfirst
    rw [List.head?_range', if_neg hnonempty, map_some, Option.some.injEq] at hhead
    omega

theorem run_inv {l : List (OutboundAction ε β)} {t : Outbound ε}
    (hrun : l.foldlM Outbound.step Outbound.new = .ok t) : Inv t :=
  run_keeps (fun _ _ _ h hstep => h.step hstep) Inv.new hrun

/-- In every reachable state the buffer is accounted for, and each stream that has not used
up the numbers is in order. -/
theorem delivers {l : List (OutboundAction ε β)} {t : Outbound ε}
    (hrun : l.foldlM Outbound.step Outbound.new = .ok t) :
    Accounted t ∧ ∀ key, t.Unsaturated key → InOrder t key :=
  ⟨(run_inv hrun).accounted, fun _ hkey => (run_inv hrun).inOrder hkey⟩

end Outbound

end

/-! ## Runs of one stream -/

namespace Outbound

def oneKey : ClientKey := (⟨"client-1".toList⟩, ⟨"stream-1".toList⟩)

def oneQueued : QueuedServerEnvelope Unit := ⟨(), oneKey.1, oneKey.2⟩

/-- The connection breaks while the first envelope is sent; the next one sends it again. -/
def reconnectRun : List (OutboundAction Unit Unit) :=
  [.connect, .snapshot [], .resent, .checkCapacity, .take oneQueued, .number,
    .disconnect false, .connect, .snapshot [oneKey], .send, .resent, .checkCapacity,
    .take oneQueued, .number, .send]

theorem delivers_reconnected : ∃ t, reconnectRun.foldlM Outbound.step Outbound.new = .ok t ∧
      (t.sentOf oneKey).map ServerEnvelope.seqId = [1, 2] ∧ t.Unsaturated oneKey ∧
      Accounted t ∧ ∀ key, t.Unsaturated key → InOrder t key :=
  ⟨_, rfl, rfl, by decide +kernel, delivers (l := reconnectRun) rfl⟩

def ackAll : ClientEnvelope Unit :=
  ⟨.ack, oneKey.1, some oneKey.2, some (UInt64.size - 1), none⟩

def round : List (OutboundAction Unit Unit) :=
  [.checkCapacity, .take oneQueued, .number, .send, .receive ackAll]

/-- Every envelope is acknowledged before the next one is taken, 2^64 times over. -/
def saturatedRun : List (OutboundAction Unit Unit) :=
  [.connect, .snapshot [], .resent] ++ (List.replicate UInt64.size round).flatten ++
    [.checkCapacity, .take oneQueued, .number]

structure Idle (s : Outbound Unit) (n : ℕ) : Prop where
  writer : s.writer = .looping
  buffer : s.state.outboundBuffer = .new
  next : s.state.nextSeqId oneKey = min (n + 1) (UInt64.size - 1)

theorem ack_insert_new {e : ServerEnvelope Unit} {n : ℕ} (h : e.seqId ≤ n) :
    (BoundedOutboundBuffer.new.insert e).ack e.key n = .new := by
  have hlookup : (BoundedOutboundBuffer.new.insert e).bufferByStream.lookup e.key = some [e] :=
    AList.lookup_insert _
  have hpop : BoundedOutboundBuffer.popAcked n [e] (BoundedOutboundBuffer.new.insert e).used =
      ([], 0) := by
    simp [BoundedOutboundBuffer.popAcked, BoundedOutboundBuffer.insert,
      BoundedOutboundBuffer.new, h]
  have herase : (BoundedOutboundBuffer.new.insert e).bufferByStream.erase e.key = ∅ := by
    apply AList.ext
    exact kerase_cons_eq rfl
  rw [BoundedOutboundBuffer.ack_of_lookup hlookup, hpop, herase]
  rfl

theorem idle_round {s : Outbound Unit} {n : ℕ} (h : Idle s n) :
    ∃ t, round.foldlM Outbound.step s = .ok t ∧ Idle t (n + 1) := by
  obtain ⟨⟨buffer, cursor, nextSeqIds⟩, writer, sent, numbered, acks⟩ := s
  obtain ⟨rfl, rfl, hnext⟩ := h
  let state : WebsocketState Unit := ⟨.new, cursor, nextSeqIds⟩
  refine ⟨⟨(state.number oneQueued).2.receive ackAll, .looping,
    sent ++ [(state.number oneQueued).1], numbered ++ [(state.number oneQueued).1],
    acks ++ [(oneKey, UInt64.size - 1)]⟩, rfl, rfl, ?_, ?_⟩
  · apply ack_insert_new (e := (state.number oneQueued).1)
    show state.nextSeqId oneKey ≤ _
    rw [hnext]
    exact Nat.min_le_right _ _
  · show ((nextSeqIds.insert oneKey (saturatingSucc (state.nextSeqId oneKey))).lookup
      oneKey).getD 1 = _
    rw [AList.lookup_insert, getD_some, hnext, saturatingSucc]
    omega

theorem idle_rounds (n : ℕ) {s : Outbound Unit} {m : ℕ} (h : Idle s m) :
    ∃ t, (List.replicate n round).flatten.foldlM Outbound.step s = .ok t ∧ Idle t (m + n) := by
  induction n generalizing s m with
  | zero => exact ⟨s, rfl, h⟩
  | succ n ih =>
    obtain ⟨u, hround, hu⟩ := idle_round h
    obtain ⟨t, hrest, ht⟩ := ih hu
    refine ⟨t, ?_, by rwa [Nat.add_assoc, Nat.add_comm 1 n] at ht⟩
    rw [replicate_succ, flatten_cons, foldlM_append, hround]
    exact hrest

/-- From the last number on, the buffer does not end below the next number. -/
theorem saturated_not_inOrder : ∃ t, saturatedRun.foldlM Outbound.step Outbound.new = .ok t ∧
      ¬ (Accounted t ∧ ∀ key, InOrder t key) := by
  obtain ⟨u, hrounds, hwriter, hbuffer, hnext⟩ := idle_rounds UInt64.size (m := 0)
    (s := ⟨.new, .looping, [], [], []⟩) ⟨rfl, rfl, rfl⟩
  obtain ⟨⟨buffer, cursor, nextSeqIds⟩, writer, sent, numbered, acks⟩ := u
  subst hwriter hbuffer
  let state : WebsocketState Unit := ⟨.new, cursor, nextSeqIds⟩
  refine ⟨⟨(state.number oneQueued).2, .sending (state.number oneQueued).1, sent,
    numbered ++ [(state.number oneQueued).1], acks⟩, ?_, fun hclaim => ?_⟩
  · exact run_concat (run_concat rfl hrounds) rfl
  · have hend := (hclaim.2 oneKey).upToNext (state.number oneQueued).1 rfl
    have hnumber : (state.number oneQueued).1.seqId = UInt64.size - 1 := hnext
    have hafter : (state.number oneQueued).2.nextSeqId oneKey = UInt64.size - 1 := by
      show ((nextSeqIds.insert oneKey (saturatingSucc (state.nextSeqId oneKey))).lookup
        oneKey).getD 1 = _
      rw [AList.lookup_insert, hnext]
      rfl
    rw [hnumber, hafter] at hend
    exact absurd hend (by decide)

end Outbound

end Codex.RemoteControl
