import Mathlib.Data.List.Perm.Basic
import Mathlib.Data.List.Count
import Mathlib.Algebra.Order.BigOperators.Group.Finset

/-!
# Where the buffers of a channel are

An abstract view of one direction of a channel. Its buffers come in pools and
are known by pool and index. A buffer is free, or held by the application
that may fill it, or on its way in a message, or held by the application that
received it; and it moves from one of these places to the next:

    free → held → in transit → out → free

Nothing here is about memory. The places are lists, in the order in which
things were put there, and next to them the view keeps the order of past
events: what was acquired and what was released, pool by pool, what was sent
and what was received. `Traffic.Inv` is the invariant of these moves, in
counts: what was acquired and not released is in exactly one place.
-/

/-- A buffer of a channel: the pool and the index in it. -/
abbrev BufId := ℕ × ℕ

/-- A message: a buffer and the size of the data in it. -/
structure Message where
  buf : BufId
  size : ℕ
  deriving DecidableEq, Repr

/-- **The queues of a direction**: what is free and what is on its way. -/
structure Lane where
  /-- The free buffers of a pool, the next one to be acquired first. -/
  free : ℕ → List ℕ
  transit : List Message := []

namespace Lane

/-- A free buffer is taken. -/
def acquire (L : Lane) (p : ℕ) (rest : List ℕ) : Lane :=
  { L with free := Function.update L.free p rest }

/-- A message is sent. -/
def send (L : Lane) (msg : Message) : Lane := { L with transit := L.transit ++ [msg] }

/-- The oldest message is received. -/
def receive (L : Lane) (rest : List Message) : Lane := { L with transit := rest }

/-- A buffer is free again. -/
def release (L : Lane) (x : BufId) : Lane :=
  { L with free := Function.update L.free x.1 (L.free x.1 ++ [x.2]) }

end Lane

/-- **One direction of a channel**: its queues, who holds the other buffers,
and what happened so far. -/
structure Traffic extends Lane where
  held : List BufId := []
  out : List BufId := []
  /-- The buffers acquired from a pool so far, in order. -/
  acqs : ℕ → List ℕ := fun _ => []
  /-- The buffers released to a pool so far, in order. -/
  rels : ℕ → List ℕ := fun _ => []
  sent : List Message := []
  received : List Message := []

namespace Traffic

/-- The buffers that are not free. -/
def busy (T : Traffic) : List BufId := T.held ++ T.transit.map Message.buf ++ T.out

/-- The buffer at the head of the free ones is acquired. -/
def acquire (T : Traffic) (p i : ℕ) (rest : List ℕ) : Traffic :=
  { T with
    free := Function.update T.free p rest
    acqs := Function.update T.acqs p (T.acqs p ++ [i])
    held := (p, i) :: T.held }

/-- A held buffer is sent. -/
def send (T : Traffic) (msg : Message) : Traffic :=
  { T with
    held := T.held.erase msg.buf
    transit := T.transit ++ [msg]
    sent := T.sent ++ [msg] }

/-- The oldest message is received. -/
def receive (T : Traffic) (msg : Message) (rest : List Message) : Traffic :=
  { T with
    transit := rest
    out := msg.buf :: T.out
    received := T.received ++ [msg] }

/-- A received buffer is released. -/
def release (T : Traffic) (x : BufId) : Traffic :=
  { T with
    out := T.out.erase x
    free := Function.update T.free x.1 (T.free x.1 ++ [x.2])
    rels := Function.update T.rels x.1 (T.rels x.1 ++ [x.2]) }

@[simp] theorem toLane_acquire (T : Traffic) (p i : ℕ) (rest : List ℕ) :
    (T.acquire p i rest).toLane = T.toLane.acquire p rest := rfl

@[simp] theorem toLane_send (T : Traffic) (msg : Message) :
    (T.send msg).toLane = T.toLane.send msg := rfl

@[simp] theorem toLane_receive (T : Traffic) (msg : Message) (rest : List Message) :
    (T.receive msg rest).toLane = T.toLane.receive rest := rfl

@[simp] theorem toLane_release (T : Traffic) (x : BufId) :
    (T.release x).toLane = T.toLane.release x := rfl

/-- **The invariant**, for `n` pools with `N p` buffers each. -/
structure Inv (T : Traffic) (n : ℕ) (N : ℕ → ℕ) : Prop where
  /-- Buffers that are not free belong to a pool. -/
  pool_lt : ∀ x ∈ T.busy, x.1 < n
  /-- What was acquired and not released is somewhere. -/
  owned : ∀ p, p < n → ∀ i, (T.acqs p).count i = (T.rels p).count i + T.busy.count (p, i)
  /-- A pool is a queue: it started with all its buffers, and what was
  acquired is what was there first. -/
  fifo : ∀ p, p < n → ∃ start, start.Perm (List.range (N p)) ∧
    T.acqs p ++ T.free p = start ++ T.rels p
  /-- Messages arrive in order. -/
  delivery : T.sent = T.received ++ T.transit

variable {T T' : Traffic} {n : ℕ} {N : ℕ → ℕ} {p i : ℕ}

theorem count_busy (T : Traffic) (x : BufId) :
    T.busy.count x = T.held.count x + (T.transit.map Message.buf).count x + T.out.count x := by
  simp only [busy, List.count_append]

/-! ## Conservation -/

namespace Inv

/-- **Every buffer is in exactly one place.** -/
theorem count_free_add (h : T.Inv n N) (hp : p < n) (i : ℕ) :
    (T.free p).count i + T.busy.count (p, i) = if i < N p then 1 else 0 := by
  obtain ⟨start, hperm, heq⟩ := h.fifo p hp
  have hcount := congrArg (List.count i) heq
  rw [List.count_append, List.count_append, h.owned p hp i, hperm.count_eq i] at hcount
  have hrange : (List.range (N p)).count i = if i < N p then 1 else 0 := by
    split
    · rename_i hi
      exact List.count_eq_one_of_mem List.nodup_range (List.mem_range.mpr hi)
    · rename_i hi
      exact List.count_eq_zero.mpr (fun hm => hi (List.mem_range.mp hm))
  omega

theorem lt_of_mem_busy (h : T.Inv n N) {x : BufId} (hx : x ∈ T.busy) : x.2 < N x.1 := by
  have hc := h.count_free_add (h.pool_lt x hx) x.2
  have hpos := List.count_pos_iff.mpr hx
  split at hc
  · assumption
  · have : T.busy.count (x.1, x.2) = T.busy.count x := rfl
    omega

theorem lt_of_mem_free (h : T.Inv n N) (hp : p < n) (hi : i ∈ T.free p) : i < N p := by
  have hc := h.count_free_add hp i
  have hpos := List.count_pos_iff.mpr hi
  split at hc
  · assumption
  · omega

theorem nodup_busy (h : T.Inv n N) : T.busy.Nodup := by
  refine List.nodup_iff_count_le_one.mpr (fun x => ?_)
  by_cases hx : x ∈ T.busy
  · have hc := h.count_free_add (h.pool_lt x hx) x.2
    have : T.busy.count (x.1, x.2) = T.busy.count x := rfl
    split at hc <;> omega
  · rw [List.count_eq_zero.mpr hx]
    exact Nat.zero_le 1

theorem nodup_free (h : T.Inv n N) (hp : p < n) : (T.free p).Nodup := by
  refine List.nodup_iff_count_le_one.mpr (fun i => ?_)
  have hc := h.count_free_add hp i
  split at hc <;> omega

/-- A free buffer is nowhere else. -/
theorem not_mem_busy_of_free (h : T.Inv n N) (hp : p < n) (hi : i ∈ T.free p) :
    (p, i) ∉ T.busy := by
  intro hb
  have hc := h.count_free_add hp i
  have hf := List.count_pos_iff.mpr hi
  have hb := List.count_pos_iff.mpr hb
  split at hc <;> omega

/-- There are no more buffers under way than there are buffers. -/
theorem length_busy_le (h : T.Inv n N) : T.busy.length ≤ ∑ p ∈ Finset.range n, N p := by
  have hsub : T.busy.toFinset ⊆ (Finset.range n).biUnion
      (fun p => (Finset.range (N p)).image (fun i => (p, i))) := by
    intro x hx
    have hx := List.mem_toFinset.mp hx
    exact Finset.mem_biUnion.mpr ⟨x.1, Finset.mem_range.mpr (h.pool_lt x hx),
      Finset.mem_image.mpr ⟨x.2, Finset.mem_range.mpr (h.lt_of_mem_busy hx), rfl⟩⟩
  calc T.busy.length = T.busy.toFinset.card := (List.toFinset_card_of_nodup h.nodup_busy).symm
    _ ≤ _ := Finset.card_le_card hsub
    _ ≤ ∑ p ∈ Finset.range n, ((Finset.range (N p)).image (fun i => (p, i))).card :=
      Finset.card_biUnion_le
    _ ≤ ∑ p ∈ Finset.range n, N p := Finset.sum_le_sum (fun p _ => by
      have := Finset.card_image_le (s := Finset.range (N p)) (f := fun i => (p, i))
      rwa [Finset.card_range] at this)

/-- **There is room for the message** of a held buffer. -/
theorem length_transit_lt (h : T.Inv n N) {x : BufId} (hx : x ∈ T.held) :
    T.transit.length < ∑ p ∈ Finset.range n, N p := by
  have hle := h.length_busy_le
  have hpos := List.length_pos_of_mem hx
  simp only [busy, List.length_append, List.length_map] at hle
  omega

/-- **There is room for the release** of a buffer that is not free. -/
theorem length_free_lt (h : T.Inv n N) {x : BufId} (hx : x ∈ T.busy) :
    (T.free x.1).length < N x.1 := by
  have hp := h.pool_lt x hx
  have hnot : x.2 ∉ T.free x.1 := fun hf => h.not_mem_busy_of_free hp hf hx
  have hnodup : (x.2 :: T.free x.1).Nodup := List.nodup_cons.mpr ⟨hnot, h.nodup_free hp⟩
  have hsub : (x.2 :: T.free x.1) ⊆ List.range (N x.1) := by
    intro j hj
    rcases List.mem_cons.mp hj with rfl | hj
    · exact List.mem_range.mpr (h.lt_of_mem_busy hx)
    · exact List.mem_range.mpr (h.lt_of_mem_free hp hj)
  have hlen := (List.subperm_of_subset hnodup hsub).length_le
  rw [List.length_cons, List.length_range] at hlen
  exact hlen

/-! ## Preservation -/

theorem acquire (h : T.Inv n N) (hp : p < n) {rest : List ℕ} (hf : T.free p = i :: rest) :
    (T.acquire p i rest).Inv n N where
  pool_lt := by
    intro x hx
    rcases List.mem_cons.mp (show x ∈ (p, i) :: T.busy from hx) with rfl | hx
    · exact hp
    · exact h.pool_lt x hx
  owned := by
    intro p' hp' j
    have hb : (T.acquire p i rest).busy.count (p', j)
        = T.busy.count (p', j) + if (p, i) = (p', j) then 1 else 0 := by
      show ((p, i) :: T.busy).count (p', j) = _
      rw [List.count_cons]
      simp only [beq_iff_eq]
    have ho := h.owned p' hp' j
    rw [hb]
    by_cases heq : p' = p
    · subst heq
      simp only [Traffic.acquire, Function.update_self, List.count_append, List.count_singleton,
        beq_iff_eq, Prod.mk.injEq, true_and]
      omega
    · simp only [Traffic.acquire, Function.update_of_ne heq, Prod.mk.injEq]
      rw [if_neg (fun hc => heq hc.1.symm)]
      exact ho
  fifo := by
    intro p' hp'
    obtain ⟨start, hperm, heq⟩ := h.fifo p' hp'
    refine ⟨start, hperm, ?_⟩
    by_cases hpp : p' = p
    · subst hpp
      simp only [Traffic.acquire, Function.update_self]
      rw [hf] at heq
      rw [List.append_assoc, List.singleton_append, heq]
    · simp only [Traffic.acquire, Function.update_of_ne hpp]
      exact heq
  delivery := h.delivery

/-- Moves that only change the place of a buffer that is not free. -/
theorem of_busy_perm (h : T.Inv n N) (hfree : T'.free = T.free) (hacqs : T'.acqs = T.acqs)
    (hrels : T'.rels = T.rels) (hbusy : T'.busy.Perm T.busy)
    (hdel : T'.sent = T'.received ++ T'.transit) : T'.Inv n N where
  pool_lt := fun x hx => h.pool_lt x (hbusy.mem_iff.mp hx)
  owned := fun p hp i => by
    rw [hacqs, hrels, hbusy.count_eq]
    exact h.owned p hp i
  fifo := fun p hp => by
    rw [hacqs, hrels, hfree]
    exact h.fifo p hp
  delivery := hdel

theorem send (h : T.Inv n N) {msg : Message} (hm : msg.buf ∈ T.held) : (T.send msg).Inv n N := by
  refine h.of_busy_perm rfl rfl rfl (List.perm_iff_count.mpr (fun x => ?_)) ?_
  · have he : (T.held.erase msg.buf).count x
        = T.held.count x - if msg.buf = x then 1 else 0 := by
      rw [List.count_erase]
      simp only [beq_iff_eq]
    have hpos := List.count_pos_iff.mpr hm
    simp only [count_busy, Traffic.send, List.map_append, List.map_cons, List.map_nil,
      List.count_append, List.count_singleton, beq_iff_eq, he]
    split
    · rename_i heq
      subst heq
      omega
    · omega
  · show T.sent ++ [msg] = T.received ++ (T.transit ++ [msg])
    rw [h.delivery, List.append_assoc]

theorem receive (h : T.Inv n N) {msg : Message} {rest : List Message}
    (ht : T.transit = msg :: rest) : (T.receive msg rest).Inv n N := by
  refine h.of_busy_perm rfl rfl rfl (List.perm_iff_count.mpr (fun x => ?_)) ?_
  · simp only [count_busy, Traffic.receive, ht, List.map_cons, List.count_cons]
    omega
  · show T.sent = T.received ++ [msg] ++ rest
    rw [h.delivery, ht, List.append_assoc, List.singleton_append]

theorem release (h : T.Inv n N) {x : BufId} (hx : x ∈ T.out) : (T.release x).Inv n N := by
  have hpos := List.count_pos_iff.mpr hx
  have hcount : ∀ y, (T.release x).busy.count y + (if x = y then 1 else 0) = T.busy.count y := by
    intro y
    have he : (T.out.erase x).count y = T.out.count y - if x = y then 1 else 0 := by
      rw [List.count_erase]
      simp only [beq_iff_eq]
    simp only [count_busy, Traffic.release, he]
    split
    · rename_i heq
      subst heq
      omega
    · omega
  refine ⟨fun y hy => h.pool_lt y ?_, fun p hp i => ?_, fun p hp => ?_, h.delivery⟩
  · have := hcount y
    have := List.count_pos_iff.mpr hy
    exact List.count_pos_iff.mp (by omega)
  · have ho := h.owned p hp i
    have hc := hcount (p, i)
    by_cases hpp : p = x.1
    · subst hpp
      simp only [Traffic.release, Function.update_self, List.count_append, List.count_singleton,
        beq_iff_eq] at hc ⊢
      have hxx : (x = (x.1, i)) ↔ x.2 = i := ⟨fun h => (Prod.ext_iff.mp h).2,
        fun h => Prod.ext rfl h⟩
      simp only [hxx] at hc
      omega
    · have hne : x ≠ (p, i) := fun heq => hpp (Prod.ext_iff.mp heq).1.symm
      rw [if_neg hne, Nat.add_zero] at hc
      simp only [Traffic.release, Function.update_of_ne hpp] at hc ⊢
      omega
  · obtain ⟨start, hperm, heq⟩ := h.fifo p hp
    refine ⟨start, hperm, ?_⟩
    by_cases hpp : p = x.1
    · subst hpp
      simp only [Traffic.release, Function.update_self]
      rw [← List.append_assoc, heq, List.append_assoc]
    · simp only [Traffic.release, Function.update_of_ne hpp]
      exact heq

/-- **The buffers a pool would offer if it were read again from the start of
its queue**: all of them once, if those released so far are those acquired
first. -/
theorem refill (h : T.Inv n N) (hp : p < n)
    (hrel : (T.rels p).Perm ((T.acqs p).take (T.rels p).length)) :
    ((T.acqs p ++ T.free p).drop (T.rels p).length).Perm (List.range (N p)) := by
  obtain ⟨start, hperm, heq⟩ := h.fifo p hp
  have hlen := hrel.length_eq
  rw [List.length_take] at hlen
  have hsplit : (T.acqs p).take (T.rels p).length
      ++ (T.acqs p ++ T.free p).drop (T.rels p).length = start ++ T.rels p := by
    have htake : (T.acqs p ++ T.free p).take (T.rels p).length
        = (T.acqs p).take (T.rels p).length := List.take_append_of_le_length (by omega)
    rw [← htake, List.take_append_drop, heq]
  refine List.perm_iff_count.mpr (fun i => ?_)
  have hc := congrArg (List.count i) hsplit
  rw [List.count_append, List.count_append, ← hrel.count_eq, hperm.count_eq] at hc
  omega

/-- What was released was acquired. -/
theorem length_rels_le (h : T.Inv n N) (hp : p < n) : (T.rels p).length ≤ (T.acqs p).length :=
  (List.subperm_ext_iff.mpr (fun i _ => by
    have := h.owned p hp i
    omega)).length_le

/-- **Only then** is it all of them once. -/
theorem of_refill (h : T.Inv n N) (hp : p < n)
    (hfill : ((T.acqs p ++ T.free p).drop (T.rels p).length).Perm (List.range (N p))) :
    (T.rels p).Perm ((T.acqs p).take (T.rels p).length) := by
  obtain ⟨start, hperm, heq⟩ := h.fifo p hp
  have htake : (T.acqs p ++ T.free p).take (T.rels p).length
      = (T.acqs p).take (T.rels p).length :=
    List.take_append_of_le_length (h.length_rels_le hp)
  have hsplit : (T.acqs p).take (T.rels p).length
      ++ (T.acqs p ++ T.free p).drop (T.rels p).length = start ++ T.rels p := by
    rw [← htake, List.take_append_drop, heq]
  refine List.perm_iff_count.mpr (fun i => ?_)
  have hc := congrArg (List.count i) hsplit
  rw [List.count_append, List.count_append, hfill.count_eq, hperm.count_eq] at hc
  omega

/-- What was pushed to a pool is its buffers and what was released. -/
theorem length_pushed (h : T.Inv n N) (hp : p < n) :
    (T.acqs p ++ T.free p).length = N p + (T.rels p).length := by
  obtain ⟨start, hperm, heq⟩ := h.fifo p hp
  rw [heq, List.length_append, hperm.length_eq, List.length_range]

/-- **A fresh start**: all buffers of all pools are free, in some order. -/
theorem fresh {free : ℕ → List ℕ} (hfree : ∀ p, p < n → (free p).Perm (List.range (N p))) :
    Inv { free := free } n N where
  pool_lt := fun x hx => absurd hx (by simp [busy])
  owned := fun p _ i => by simp [busy]
  fifo := fun p hp => ⟨free p, hfree p hp, by simp⟩
  delivery := rfl

end Inv

end Traffic
