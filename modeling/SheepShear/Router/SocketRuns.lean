import SheepShear.Router.Sockets

/-!
# Socket objects and their reads

As long as no socket with an outstanding read is deleted, the objects in the
table are those with a read, so that the completion routine always finds its
object. Replacing a socket with the same source port, evicting one from a full
table and an error of a send delete a socket regardless of its read.
-/

namespace SheepShear.Router

variable {s s' : Sockets} {o : Nat}

theorem swapRemove_perm {xs : List Nat} {i : Nat} (hi : i < xs.length) :
    (swapRemove xs i).Perm (xs.eraseIdx i) := by
  induction xs using List.reverseRecOn with
  | nil => exact absurd hi (Nat.not_lt_zero _)
  | append_singleton ys last _ =>
    have hlast : (ys ++ [last]).getLast? = some last := by simp
    rw [swapRemove, hlast]
    dsimp only
    rw [List.length_append, List.length_singleton] at hi
    rcases Nat.lt_succ_iff_lt_or_eq.mp hi with hlt | rfl
    · rw [List.set_append_left _ _ hlt, List.dropLast_concat, List.eraseIdx_append_of_lt_length hlt]
      exact (List.set_perm_cons_eraseIdx hlt last).trans
        (List.perm_append_singleton last (ys.eraseIdx i)).symm
    · rw [List.set_append_right _ _ le_rfl, Nat.sub_self, List.set_cons_zero, List.dropLast_concat,
        List.eraseIdx_append_of_length_le le_rfl]
      simp

-- ---------------------------------------------------------------------------
-- The objects
-- ---------------------------------------------------------------------------

/-- The table has the live objects, all of them with a socket of the system, and every other object
was deleted once. -/
structure Ledger (s : Sockets) : Prop where
  nodup : s.table.Nodup
  bound : s.table.length ≤ maxOpenSockets
  live : ∀ {o}, o ∈ s.table ↔ ∃ x, s.heap o = some x
  valid : ∀ {o x}, s.heap o = some x → x.s = true
  created : ∀ {o}, o < s.next ↔ o ∈ s.table ∨ o ∈ s.deleted
  once : s.deleted.Nodup
  disjoint : ∀ {o}, o ∈ s.table → o ∉ s.deleted
  stale : s.stale = []

/-- The fields of an object are those of the datagram it was last used for. -/
def SentAs (x : SocketT) (d : Datagram) : Prop :=
  x.ipSrc = d.ipSrc ∧ x.ipDest = d.ipDest ∧ x.srcPort = d.srcPort ∧ x.destPort = d.destPort

def Uses (s : Sockets) (o : Nat) : Prop :=
  ∀ x, s.heap o = some x → ∃ d, s.used o = some d ∧ SentAs x d

structure Inv (s : Sockets) : Prop where
  ledger : Ledger s
  reads : s.pending.Perm s.table
  uses : ∀ o, Uses s o

theorem deleteSocket_eq (ho : o ∈ s.table) :
    ∃ table, table.Perm (s.table.erase o) ∧
      deleteSocket s o = { destroy s o with table := table } := by
  obtain ⟨i, hi⟩ : ∃ i, s.table.idxOf? o = some i := by
    rw [← Option.isSome_iff_exists, List.isSome_idxOf?]
    exact ho
  refine ⟨swapRemove s.table i, ?_, by rw [deleteSocket, hi]⟩
  obtain ⟨hlt, hget, -⟩ := List.idxOf?_eq_some_iff.mp hi
  have herase : s.table.erase o = s.table.eraseIdx i := by
    rw [List.erase_eq_eraseIdx, hi]
  rw [herase]
  exact swapRemove_perm hlt

theorem Ledger.delete (h : Ledger s) (ho : o ∈ s.table) : Ledger (deleteSocket s o) := by
  obtain ⟨table, hperm, heq⟩ := deleteSocket_eq ho
  have hmem : ∀ {o'}, o' ∈ table ↔ o' ≠ o ∧ o' ∈ s.table := by
    intro o'
    rw [hperm.mem_iff, h.nodup.mem_erase_iff]
  rw [heq]
  refine ⟨hperm.nodup_iff.mpr (h.nodup.erase o), ?_, ?_, ?_, ?_, ?_, ?_, h.stale⟩
  · have hle := (List.erase_sublist (a := o) (l := s.table)).length_le
    dsimp only
    rw [hperm.length_eq]
    exact hle.trans h.bound
  · intro o'
    dsimp only [destroy]
    rw [hmem, h.live]
    by_cases hne : o' = o
    · simp [hne]
    · simp [hne]
  · intro o' x hx
    dsimp only [destroy] at hx
    by_cases hne : o' = o
    · simp [hne] at hx
    · rw [Function.update_of_ne hne] at hx
      exact h.valid hx
  · intro o'
    dsimp only [destroy]
    rw [hmem, h.created, List.mem_cons]
    by_cases hne : o' = o
    · simp [hne, ho]
    · simp [hne]
  · exact List.nodup_cons.mpr ⟨h.disjoint ho, h.once⟩
  · intro o' ho'
    obtain ⟨hne, ho'⟩ := hmem.mp ho'
    dsimp only [destroy]
    rw [List.mem_cons, not_or]
    exact ⟨hne, h.disjoint ho'⟩

/-- An object without a read is deleted. -/
theorem Inv.delete (h : Ledger s) (ho : o ∈ s.table) (hreads : s.pending.Perm (s.table.erase o))
    (huses : ∀ o', o' ≠ o → Uses s o') : Inv (deleteSocket s o) := by
  refine ⟨h.delete ho, ?_, ?_⟩
  · obtain ⟨table, hperm, heq⟩ := deleteSocket_eq ho
    rw [heq]
    exact hreads.trans hperm.symm
  · obtain ⟨table, -, heq⟩ := deleteSocket_eq ho
    rw [heq]
    intro o' x hx
    dsimp only [destroy] at hx
    by_cases hne : o' = o
    · simp [hne] at hx
    · rw [Function.update_of_ne hne] at hx
      exact huses o' hne x hx

theorem modifySocket_heap {f : SocketT → SocketT} {o' : Nat} {x : SocketT}
    (hx : (modifySocket s o f).heap o' = some x) :
    ∃ x₀, s.heap o' = some x₀ ∧ (o' ≠ o ∧ x = x₀ ∨ o' = o ∧ x = f x₀) := by
  dsimp only [modifySocket] at hx
  by_cases hne : o' = o
  · subst hne
    rw [Function.update_self] at hx
    obtain ⟨x₀, hx₀, rfl⟩ := Option.map_eq_some_iff.mp hx
    exact ⟨x₀, hx₀, .inr ⟨rfl, rfl⟩⟩
  · rw [Function.update_of_ne hne] at hx
    exact ⟨x, hx, .inl ⟨hne, rfl⟩⟩

theorem Ledger.modify (h : Ledger s) {f : SocketT → SocketT} (hf : ∀ x, (f x).s = x.s) :
    Ledger (modifySocket s o f) := by
  refine ⟨h.nodup, h.bound, ?_, ?_, h.created, h.once, h.disjoint, h.stale⟩
  · intro o'
    dsimp only [modifySocket]
    rw [h.live]
    by_cases hne : o' = o
    · subst hne
      simp
    · rw [Function.update_of_ne hne]
  · intro o' x hx
    obtain ⟨x₀, hx₀, ⟨-, rfl⟩ | ⟨-, rfl⟩⟩ := modifySocket_heap hx
    · exact h.valid hx₀
    · rw [hf]
      exact h.valid hx₀

theorem Uses.setTtl {o' : Nat} (h : Uses s o') (now : Word) : Uses (setTtl s o now) o' := by
  intro x hx
  obtain ⟨x₀, hx₀, ⟨-, rfl⟩ | ⟨-, rfl⟩⟩ := modifySocket_heap hx
  · exact h _ hx₀
  · obtain ⟨d, hd, hsrc, hdest, hport, hport'⟩ := h _ hx₀
    exact ⟨d, hd, hsrc, hdest, hport, hport'⟩

-- ---------------------------------------------------------------------------
-- Closing
-- ---------------------------------------------------------------------------

theorem closeEntry_eq (h : Ledger s) {i : Nat} {x : SocketT} (hx : s.heap o = some x) :
    closeEntry s i o x = closeSocket s o := by
  rw [closeEntry, if_pos (h.valid hx)]

theorem Inv.close (h : Inv s) (closed : List Nat) : Inv { s with closed := closed } :=
  ⟨⟨h.ledger.nodup, h.ledger.bound, h.ledger.live, h.ledger.valid, h.ledger.created, h.ledger.once,
    h.ledger.disjoint, h.ledger.stale⟩, h.reads, h.uses⟩

theorem closeOldFrom_inv (now : Word) (i : Nat) (h : Inv s) : Inv (closeOldFrom now i s) := by
  induction i generalizing s with
  | zero => exact h
  | succ i ih =>
    rw [closeOldFrom]
    cases hget : s.table[i]? with
    | none => exact ih h
    | some o =>
      dsimp only
      cases hx : s.heap o with
      | none => exact ih h
      | some x =>
        dsimp only
        split_ifs
        · rw [closeEntry_eq h.ledger hx]
          exact ih (h.close _)
        · exact ih h

/-- Every entry is closed, in order. -/
theorem closeAllFrom_eq (h : Inv s) {rounds i : Nat} (hrounds : i + rounds = s.table.length) :
    closeAllFrom rounds i s = { s with closed := (s.table.drop i).reverse ++ s.closed } := by
  induction rounds generalizing s i with
  | zero =>
    rw [closeAllFrom, List.drop_of_length_le (by omega)]
    rfl
  | succ rounds ih =>
    have hlt : i < s.table.length := by omega
    have hget := List.getElem?_eq_getElem hlt
    obtain ⟨x, hx⟩ := h.ledger.live.mp (List.getElem_mem hlt)
    rw [closeAllFrom, hget]
    dsimp only
    rw [hx]
    dsimp only
    rw [closeEntry_eq h.ledger hx, closeSocket, ih (h.close _) (by dsimp only; omega),
      List.drop_eq_getElem_cons hlt, List.reverse_cons, List.append_assoc]
    rfl

-- ---------------------------------------------------------------------------
-- Datagrams
-- ---------------------------------------------------------------------------

theorem markUsed_ledger (h : Ledger s) (d : Datagram) : Ledger (markUsed s o d) := by
  have hm := h.modify (o := o) (f := fun x =>
    { x with srcPort := d.srcPort, destPort := d.destPort, ipSrc := d.ipSrc, ipDest := d.ipDest })
    fun _ => rfl
  exact ⟨hm.nodup, hm.bound, hm.live, hm.valid, hm.created, hm.once, hm.disjoint, hm.stale⟩

theorem markUsed_uses (d : Datagram) (h : ∀ o', o' ≠ o → Uses s o') (o' : Nat) :
    Uses (markUsed s o d) o' := by
  intro x hx
  obtain ⟨x₀, hx₀, ⟨hne, rfl⟩ | ⟨rfl, rfl⟩⟩ := modifySocket_heap hx
  · dsimp only [markUsed]
    rw [Function.update_of_ne hne]
    exact h o' hne _ hx₀
  · exact ⟨d, Function.update_self .., rfl, rfl, rfl, rfl⟩

theorem Ledger.addRead (h : Ledger s) : Ledger (addRead s o) :=
  ⟨h.nodup, h.bound, h.live, h.valid, h.created, h.once, h.disjoint, h.stale⟩

theorem setTtl_ledger (h : Ledger s) (now : Word) : Ledger (setTtl s o now) := h.modify fun _ => rfl

/-- A socket that has a read sends without an error. -/
theorem sendOn_old (h : Inv s) (o : Nat) {ans : Answers} (hsend : ans.sendto = true) (d : Datagram) :
    Inv (sendOn ans s o true d) := by
  have heq : sendOn ans s o true d = setTtl (markUsed s o d) o ans.tickCount := by
    simp [sendOn, hsend]
  rw [heq]
  exact ⟨setTtl_ledger (markUsed_ledger h.ledger d) _, h.reads,
    fun o' => (markUsed_uses d (fun o' _ => h.uses o') o').setTtl _⟩

/-- A new socket sends and gets a read, or is deleted. -/
theorem sendOn_new (h : Ledger s) (ho : o ∈ s.table) (hreads : s.pending.Perm (s.table.erase o))
    (huses : ∀ o', o' ≠ o → Uses s o') (ans : Answers) (d : Datagram) :
    Inv (sendOn ans s o false d) := by
  have hledger := markUsed_ledger (o := o) h d
  have huses' := markUsed_uses d huses
  by_cases hsend : ans.sendto = true
  · by_cases hrecv : ans.recvFrom = true
    · have heq : sendOn ans s o false d =
          setTtl (addRead (markUsed s o d) o) o ans.tickCount := by
        simp [sendOn, hsend, bRecfrom, hrecv]
      rw [heq]
      refine ⟨setTtl_ledger hledger.addRead _, ?_, ?_⟩
      · exact (hreads.cons o).trans (List.perm_cons_erase ho).symm
      · intro o'
        have hread : Uses (addRead (markUsed s o d) o) o' := huses' o'
        exact hread.setTtl _
    · have heq : sendOn ans s o false d =
          deleteSocket (setTtl (markUsed s o d) o ans.tickCount) o := by
        simp [sendOn, hsend, bRecfrom, hrecv]
      rw [heq]
      exact Inv.delete (setTtl_ledger hledger _) ho hreads fun o' _ => (huses' o').setTtl _
  · have heq : sendOn ans s o false d = deleteSocket (markUsed s o d) o := by
      simp [sendOn, hsend]
    rw [heq]
    exact Inv.delete hledger ho hreads fun o' _ => huses' o'

theorem Ledger.next_fresh (h : Ledger s) : s.next ∉ s.table ∧ s.next ∉ s.deleted := by
  rw [← not_or, ← h.created]
  exact lt_irrefl _

/-- The system has no socket for the object, and it is deleted. -/
theorem newSocket_failed (h : Inv s) {ans : Answers} (hsocket : ans.socket = false) (d : Datagram) :
    ∃ s', newSocket ans s d = (none, s') ∧ Inv s' := by
  obtain ⟨hnew, hnew'⟩ := h.ledger.next_fresh
  refine ⟨_, by simp only [newSocket, hsocket, Bool.false_eq_true, if_false]; rfl, ?_⟩
  refine ⟨⟨h.ledger.nodup, h.ledger.bound, h.ledger.live, h.ledger.valid, ?_,
    List.nodup_cons.mpr ⟨hnew', h.ledger.once⟩, ?_, h.ledger.stale⟩, h.reads, h.uses⟩
  · intro o
    have := h.ledger.created (o := o)
    dsimp only
    rw [List.mem_cons, Nat.lt_succ_iff_lt_or_eq, this]
    tauto
  · intro o ho
    dsimp only
    rw [List.mem_cons, not_or]
    exact ⟨fun heq => hnew (heq ▸ ho), h.ledger.disjoint ho⟩

theorem newSocket_added (h : Inv s) {ans : Answers} (hsocket : ans.socket = true)
    (hroom : s.table.length < maxOpenSockets) (d : Datagram) :
    ∃ s', newSocket ans s d = (some s.next, s') ∧ Ledger s' ∧ s.next ∈ s'.table ∧
      s'.pending.Perm (s'.table.erase s.next) ∧ ∀ o', o' ≠ s.next → Uses s' o' := by
  obtain ⟨hnew, hnew'⟩ := h.ledger.next_fresh
  refine ⟨_, by simp only [newSocket, hsocket, if_true, addSocket, hroom]; rfl, ?_, ?_, ?_, ?_⟩
  · refine ⟨?_, ?_, ?_, ?_, ?_, h.ledger.once, ?_, h.ledger.stale⟩
    · rw [List.nodup_append]
      refine ⟨h.ledger.nodup, List.nodup_singleton _, ?_⟩
      rintro o ho _ hs rfl
      exact hnew (List.mem_singleton.mp hs ▸ ho)
    · rw [List.length_append]
      exact hroom
    · intro o
      rw [List.mem_append, List.mem_singleton, h.ledger.live]
      by_cases hne : o = s.next
      · simp [hne]
      · simp [hne]
    · intro o x hx
      dsimp only at hx
      by_cases hne : o = s.next
      · subst hne
        rw [Function.update_self] at hx
        cases hx
        rfl
      · rw [Function.update_of_ne hne] at hx
        exact h.ledger.valid hx
    · intro o
      have := h.ledger.created (o := o)
      dsimp only
      rw [List.mem_append, List.mem_singleton, Nat.lt_succ_iff_lt_or_eq, this]
      tauto
    · intro o ho
      rcases List.mem_append.mp ho with ho | ho
      · exact h.ledger.disjoint ho
      · rw [List.mem_singleton.mp ho]
        exact hnew'
  · simp
  · dsimp only
    rw [List.erase_append_right _ hnew, List.erase_cons_head, List.append_nil]
    exact h.reads
  · intro o hne x hx
    dsimp only at hx
    rw [Function.update_of_ne hne] at hx
    exact h.uses o x hx

/-- A send of the Mac that leaves the reads alone: there is a socket for it and no error, or neither a
socket with its source port nor a full table. -/
def LeavesReads (s : Sockets) (ans : Answers) (d : Datagram) : Prop :=
  match getSocketIndex s d.srcPort d.destPort .udp with
  | some _ => ans.sendto = true
  | none =>
    getSocketIndexBySource s d.srcPort .udp = none ∧
      (ans.socket = true → s.table.length < maxOpenSockets)

theorem writeUdp_inv (h : Inv s) {ans : Answers} {d : Datagram} (hleaves : LeavesReads s ans d) :
    Inv (writeUdp ans s d) := by
  unfold LeavesReads at hleaves
  cases hindex : getSocketIndex s d.srcPort d.destPort .udp with
  | some i =>
    rw [hindex] at hleaves
    obtain ⟨hlt, -⟩ := List.findIdx?_eq_some_iff_getElem.mp hindex
    rw [writeUdp, findSocket, hindex]
    dsimp only
    rw [List.getElem?_eq_getElem hlt]
    exact sendOn_old h _ hleaves d
  | none =>
    rw [hindex] at hleaves
    obtain ⟨hsource, hroom⟩ := hleaves
    rw [writeUdp, findSocket, hindex]
    dsimp only
    rw [hsource]
    dsimp only
    cases hsocket : ans.socket with
    | false =>
      obtain ⟨s', heq, hinv⟩ := newSocket_failed h hsocket d
      rw [heq]
      exact hinv
    | true =>
      obtain ⟨s', heq, hledger, hmem, hreads, huses⟩ := newSocket_added h hsocket (hroom hsocket) d
      rw [heq]
      exact sendOn_new hledger hmem hreads huses ans d

/-- The object of an outstanding read has what it was last used for. -/
theorem Inv.pending_object (h : Inv s) (ho : o ∈ s.pending) :
    ∃ x d, s.heap o = some x ∧ s.used o = some d ∧ SentAs x d := by
  obtain ⟨x, hx⟩ := h.ledger.live.mp (h.reads.mem_iff.mp ho)
  obtain ⟨d, hd, hsent⟩ := h.uses o x hx
  exact ⟨x, d, hx, hd, hsent⟩

/-- The end of the completion routine: a new read, or the object is deleted. -/
theorem completion_end (h : Ledger s) (ho : o ∈ s.table) (hreads : s.pending.Perm (s.table.erase o))
    (huses : ∀ o', Uses s o') (again : Bool) (now : Word) :
    Inv (if again then setTtl (addRead s o) o now else deleteSocket s o) := by
  split_ifs
  · refine ⟨setTtl_ledger h.addRead _, ?_, ?_⟩
    · exact (hreads.cons o).trans (List.perm_cons_erase ho).symm
    · intro o'
      have hread : Uses (addRead s o) o' := huses o'
      exact hread.setTtl now
  · exact Inv.delete h ho hreads fun o' _ => huses o'

theorem completion_inv (h : Inv s) (ho : o ∈ s.pending) (ans : Answers)
    (data : Option (List Byte)) : Inv (udpReadCompletion ans s o data) := by
  obtain ⟨x, d, hx, -, -⟩ := h.pending_object ho
  have hmem := h.reads.mem_iff.mp ho
  -- Neither the end of the read nor what is forwarded changes an object.
  have hend : ∀ (fs : List Datagram) (again : Bool),
      Inv (if again then
        setTtl (addRead { s with pending := s.pending.erase o, forwarded := fs } o) o ans.tickCount
        else deleteSocket { s with pending := s.pending.erase o, forwarded := fs } o) := by
    intro fs again
    have hledger : Ledger { s with pending := s.pending.erase o, forwarded := fs } :=
      ⟨h.ledger.nodup, h.ledger.bound, h.ledger.live, h.ledger.valid, h.ledger.created,
        h.ledger.once, h.ledger.disjoint, h.ledger.stale⟩
    exact completion_end hledger hmem (h.reads.erase o) h.uses again _
  unfold udpReadCompletion
  dsimp only
  rw [hx]
  dsimp only
  cases data with
  | none => exact hend s.forwarded _
  | some bytes =>
    by_cases hlen : 0 < bytes.length ∧ bytes.length ≤ 1460
    · simp only [hlen, and_self, if_true]
      exact hend (reply x bytes :: s.forwarded) _
    · simp only [hlen, if_false]
      exact hend s.forwarded _

-- ---------------------------------------------------------------------------
-- Runs
-- ---------------------------------------------------------------------------

def Guard (s : Sockets) : Op → Prop
  | .writeUdp ans d => LeavesReads s ans d
  | _ => True

theorem start_inv : Inv .start := by
  refine ⟨⟨List.nodup_nil, Nat.zero_le _, ?_, nofun, ?_, List.nodup_nil, nofun, rfl⟩, .nil, nofun⟩
  · simp [Sockets.start]
  · simp [Sockets.start]

theorem step_inv {op : Op} (h : Inv s) (hguard : Guard s op) (hstep : step s op = some s') :
    Inv s' := by
  cases op with
  | writeUdp ans d =>
    cases hstep
    exact writeUdp_inv h hguard
  | completion ans o data =>
    simp only [step] at hstep
    split_ifs at hstep with ho
    cases hstep
    exact completion_inv h ho ans data
  | closeOld now =>
    cases hstep
    exact closeOldFrom_inv now _ h
  | closeAll =>
    cases hstep
    rw [closeAllSockets, closeAllFrom_eq h (Nat.zero_add _)]
    exact h.close _
  | shutDown =>
    cases hstep
    exact ⟨⟨h.ledger.nodup, h.ledger.bound, h.ledger.live, h.ledger.valid, h.ledger.created,
      h.ledger.once, h.ledger.disjoint, h.ledger.stale⟩, h.reads, h.uses⟩

structure Sound (s : Sockets) : Prop where
  distinct : s.table.Nodup
  live : ∀ o ∈ s.table, ∃ x, s.heap o = some x
  bound : s.table.length ≤ maxOpenSockets
  /-- Every object is in the table until it is deleted once. -/
  once : ∀ o < s.next, s.deleted.count o = if o ∈ s.table then 0 else 1
  noStale : s.stale = []
  closesAll : (closeAllSockets s).closed = s.table.reverse ++ s.closed
  /-- Data comes to the Mac from the peer that the socket was last used for. -/
  forwards : ∀ ans o bytes, o ∈ s.pending → 0 < bytes.length → bytes.length ≤ 1460 →
    ∃ d, s.used o = some d ∧
      (udpReadCompletion ans s o (some bytes)).forwarded =
        ⟨d.ipDest, d.ipSrc, d.destPort, d.srcPort, bytes⟩ :: s.forwarded

theorem deleteSocket_forwarded (s : Sockets) (o : Nat) :
    (deleteSocket s o).forwarded = s.forwarded := by
  unfold deleteSocket
  split <;> rfl

theorem Inv.sound (h : Inv s) : Sound s := by
  refine ⟨h.ledger.nodup, fun o ho => h.ledger.live.mp ho, h.ledger.bound, ?_, h.ledger.stale, ?_, ?_⟩
  · intro o ho
    split_ifs with hmem
    · exact List.count_eq_zero.mpr (h.ledger.disjoint hmem)
    · exact List.count_eq_one_of_mem h.ledger.once ((h.ledger.created.mp ho).resolve_left hmem)
  · rw [closeAllSockets, closeAllFrom_eq h (Nat.zero_add _)]
    rfl
  · intro ans o bytes ho hpos hle
    obtain ⟨x, d, hx, hd, hsrc, hdest, hport, hport'⟩ := h.pending_object ho
    refine ⟨d, hd, ?_⟩
    unfold udpReadCompletion
    simp only [hx, hpos, hle, and_self, if_true, ← hsrc, ← hdest, ← hport, ← hport']
    split_ifs
    · rfl
    · rw [deleteSocket_forwarded]
      rfl

/-- The table and its objects are sound in all runs whose sends leave the reads alone. -/
theorem sockets_sound (hrun : Steps.Reaches step Guard .start s) : Sound s :=
  (hrun.invariant start_inv step_inv).sound

/-- The system does what it is asked. -/
def allGranted : Answers := ⟨true, true, true, 0⟩

/-- A query to a port of a peer. -/
def query (destPort : Port) : Datagram := ⟨0x0a000001, 0x08080808, 1000, destPort, [1]⟩

/-- A query and its answer. -/
def queryAnswered : List Op :=
  [.writeUdp allGranted (query 53), .completion allGranted 0 (some [2])]

theorem queryAnswered_sound :
    ∃ s, Steps.run step .start queryAnswered = some s ∧
      s.forwarded = [⟨0x08080808, 0x0a000001, 53, 1000, [2]⟩] ∧ Sound s := by
  have hrun : Steps.run step .start queryAnswered = some _ := rfl
  have hguarded : Steps.Guarded step Guard .start queryAnswered :=
    ⟨⟨rfl, fun _ => by decide⟩, trivial, trivial⟩
  exact ⟨_, hrun, rfl, sockets_sound (Steps.Reaches.start.run_append hrun hguarded)⟩

/-- Two queries from one port to two ports; the read of the first socket ends after it was deleted. -/
theorem secondQuery_stale :
    ∃ s, Steps.run step .start [.writeUdp allGranted (query 53), .writeUdp allGranted (query 54),
        .completion allGranted 0 none] = some s ∧
      s.deleted = [0] ∧ s.stale = [0] ∧ ¬ Sound s :=
  ⟨_, rfl, rfl, rfl, fun h => nomatch h.noStale⟩

end SheepShear.Router
