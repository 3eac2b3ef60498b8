import SheepShear.Kpx.BlockCache

/-!
# The lists of the block cache

The links of a reachable cache represent lists of entries: one chain for each
cache line, the active and the dormant list, and the free list of the
allocator. Each operation is described by what it does to these lists.
-/

namespace SheepShear.Kpx

open IntrusiveList

-- ---------------------------------------------------------------------------
-- The free list
-- ---------------------------------------------------------------------------

namespace LazyAllocator

variable {a : LazyAllocator} {free : List Ptr} {count : Nat}

/-- The chunks of the free list, first to last. -/
structure Free (a : LazyAllocator) (free : List Ptr) : Prop where
  walk : Walk a.next a.chunks free
  nodup : free.Nodup

theorem Free.link (h : a.Free free) {d : Ptr} (hd : d ∉ free) : (a.link d).Free (d :: free) where
  walk := by
    refine .cons ?_
    change Walk (Function.update a.next d a.chunks) (Function.update a.next d a.chunks d) free
    rw [Function.update_self]
    exact h.walk.congr fun x hx => Function.update_of_ne (ne_of_mem_of_not_mem hx hd) ..
  nodup := List.nodup_cons.mpr ⟨hd, h.nodup⟩

theorem Free.foldl_link (h : a.Free free) {ds : List Ptr} (hds : ds.Nodup)
    (hd : ∀ d ∈ ds, d ∉ free) : (ds.foldl LazyAllocator.link a).Free (ds.reverse ++ free) := by
  induction ds generalizing a free with
  | nil => exact h
  | cons d ds ih =>
    obtain ⟨hdds, hds⟩ := List.nodup_cons.mp hds
    have hlink := h.link (hd d (List.mem_cons_self ..))
    have hrest := ih hlink hds fun e he hmem => by
      rcases List.mem_cons.mp hmem with rfl | hmem
      · exact hdds he
      · exact hd e (List.mem_cons_of_mem _ he) hmem
    simpa using hrest

theorem pools_foldl_link (ds : List Ptr) (a : LazyAllocator) :
    (ds.foldl LazyAllocator.link a).pools = a.pools := by
  induction ds generalizing a with
  | nil => rfl
  | cons d ds ih => exact ih _

/-- An acquired chunk comes off the free list or out of a new pool. -/
theorem Free.acquire (h : a.Free free) (hcount : 0 < count) :
    ∃ p a' free' new, a.acquire count = some (p, a') ∧ a'.Free free' ∧ p ∉ free' ∧
      (p :: free').Perm (new ++ free) ∧
      (∀ q, q < a'.pools * count ↔ q < a.pools * count ∨ q ∈ new) ∧
      ∀ q ∈ new, a.pools * count ≤ q := by
  cases free with
  | cons p free' =>
    have hchunks : a.chunks = some p := h.walk.head_eq
    have hnext : Walk a.next (a.next p) free' := h.walk.tail
    obtain ⟨hp, hnodup⟩ := List.nodup_cons.mp h.nodup
    refine ⟨p, { a with chunks := a.next p }, free', [], ?_, ⟨hnext, hnodup⟩, hp, .refl _, ?_, ?_⟩
    · simp [LazyAllocator.acquire, hchunks]
    · simp
    · simp
  | nil =>
    have hchunks : a.chunks = none := h.walk.head_eq
    let new := List.range' (a.pools * count) count
    have hnew : new.Nodup := List.nodup_range' ..
    have hlinked := h.foldl_link hnew (by simp)
    have hfree : (a.newPool count).Free (new.reverse ++ []) := ⟨hlinked.walk, hlinked.nodup⟩
    rw [List.append_nil] at hfree
    obtain ⟨p, free', hrev⟩ : ∃ p free', new.reverse = p :: free' := by
      cases hr : new.reverse with
      | nil =>
        have hlen := congrArg List.length hr
        simp [new] at hlen
        omega
      | cons p free' => exact ⟨p, free', rfl⟩
    rw [hrev] at hfree
    have hchunks' : (a.newPool count).chunks = some p := hfree.walk.head_eq
    have hnext := hfree.walk.tail
    obtain ⟨hp, hnodup⟩ := List.nodup_cons.mp hfree.nodup
    refine ⟨p, { a.newPool count with chunks := (a.newPool count).next p }, free', new, ?_,
      ⟨hnext, hnodup⟩, hp, ?_, ?_, ?_⟩
    · simp [LazyAllocator.acquire, hchunks, hchunks']
    · rw [List.append_nil, ← hrev]
      exact List.reverse_perm _
    · intro q
      change q < (a.pools + 1) * count ↔ _
      rw [List.mem_range'_1, Nat.succ_mul]
      omega
    · intro q hq
      exact (List.mem_range'_1.mp hq).1

end LazyAllocator

-- ---------------------------------------------------------------------------
-- What the links represent
-- ---------------------------------------------------------------------------

/-- The lists of a cache: its chains, its active and dormant lists, and the free list. -/
structure CacheLists where
  chain : Line → List Ptr
  list : ListId → List Ptr
  free : List Ptr

/-- The lists after the blocks `gone` are removed and released, in this order. -/
def CacheLists.drop (a : CacheLists) (gone : List Ptr) : CacheLists where
  chain cl := (a.chain cl).filter (· ∉ gone)
  list l := (a.list l).filter (· ∉ gone)
  free := gone.reverse ++ a.free

theorem CacheLists.drop_nil (a : CacheLists) : a.drop [] = a := by
  simp [CacheLists.drop]

theorem CacheLists.drop_cons (a : CacheLists) (p : Ptr) (gone : List Ptr) :
    (a.drop [p]).drop gone = a.drop (p :: gone) := by
  simp [CacheLists.drop, List.filter_filter, Bool.and_comm]

theorem CacheLists.drop_append (a : CacheLists) (gone gone' : List Ptr) :
    (a.drop gone).drop gone' = a.drop (gone ++ gone') := by
  simp [CacheLists.drop, List.filter_filter, Bool.and_comm]

/-- The lists after a search moved `p` to the front of its chain. -/
def CacheLists.raise (a : CacheLists) (cl : Line) (p : Ptr) : CacheLists :=
  { a with chain := Function.update a.chain cl (p :: (a.chain cl).filter (· != p)) }

/-- The lists that `clear` leaves. -/
def CacheLists.cleared (a : CacheLists) : CacheLists where
  chain _ := []
  list _ := []
  free := (a.list .dormant).reverse ++ ((a.list .active).reverse ++ a.free)

theorem CacheLists.mem_cleared {a : CacheLists} {p : Ptr} :
    p ∈ a.cleared.free ↔ p ∈ a.free ∨ ∃ l, p ∈ a.list l := by
  have hlists : (∃ l, p ∈ a.list l) ↔ p ∈ a.list .dormant ∨ p ∈ a.list .active := by
    constructor
    · rintro ⟨l, hl⟩
      cases l with
      | active => exact Or.inr hl
      | dormant => exact Or.inl hl
    · rintro (hl | hl)
      · exact ⟨_, hl⟩
      · exact ⟨_, hl⟩
  rw [hlists]
  simp [CacheLists.cleared]
  tauto

namespace BlockCache

variable {Info : Type} [BlockInfo Info] {c c' : BlockCache Info} {a : CacheLists} {p q : Ptr}

structure Repr (c : BlockCache Info) (a : CacheLists) : Prop where
  chains : Represents c.sameCl a.chain
  lists : Represents c.list a.list
  free : c.allocator.Free a.free
  line : ∀ {p cl}, p ∈ a.chain cl → cl = cacheline (c.pcAt p)
  listed : ∀ {p}, (∃ cl, p ∈ a.chain cl) ↔ ∃ l, p ∈ a.list l
  allocated : ∀ {p}, p < c.allocator.pools * entryCount Info ↔
    p ∈ a.free ∨ ∃ cl, p ∈ a.chain cl
  notFree : ∀ {p}, p ∈ a.free → ∀ cl, p ∉ a.chain cl

theorem Repr.chain_pc (h : Repr c a) (hp : ∃ cl, p ∈ a.chain cl) :
    p ∈ a.chain (cacheline (c.pcAt p)) := by
  obtain ⟨cl, hp⟩ := hp
  rwa [← h.line hp]

theorem construct_repr (info : Ptr → Info) (sameCl : Links Line Ptr) (list : Links ListId Ptr)
    (next : Ptr → Option Ptr) :
    Repr (construct info sameCl list next) ⟨fun _ => [], fun _ => [], []⟩ where
  chains := ⟨fun _ => rfl, fun _ => List.nodup_nil, fun h => nomatch h⟩
  lists := ⟨fun _ => rfl, fun _ => List.nodup_nil, fun h => nomatch h⟩
  free := ⟨.nil, List.nodup_nil⟩
  line h := nomatch h
  listed := by simp
  allocated := by simp [construct, initializeTags]
  notFree h := nomatch h

theorem mem_update_cons {κ : Type} [DecidableEq κ] {lists : κ → List Ptr} {k k' : κ} :
    q ∈ Function.update lists k (p :: lists k) k' ↔ (q = p ∧ k' = k) ∨ q ∈ lists k' := by
  by_cases hk : k' = k
  · subst hk
    simp
  · simp [hk]

/-- The lists of a cache while a block `p` that was acquired is not yet in them. -/
structure Held (c : BlockCache Info) (a : CacheLists) (p : Ptr) : Prop where
  chains : Represents c.sameCl a.chain
  lists : Represents c.list a.list
  free : c.allocator.Free a.free
  line : ∀ {q cl}, q ∈ a.chain cl → cl = cacheline (c.pcAt q)
  listed : ∀ {q}, (∃ cl, q ∈ a.chain cl) ↔ ∃ l, q ∈ a.list l
  allocated : ∀ {q}, q < c.allocator.pools * entryCount Info ↔
    q = p ∨ q ∈ a.free ∨ ∃ cl, q ∈ a.chain cl
  notFree : ∀ {q}, q ∈ a.free → ∀ cl, q ∉ a.chain cl
  heldFree : p ∉ a.free
  heldChain : ∀ cl, p ∉ a.chain cl

theorem Held.heldList (h : Held c a p) (l : ListId) : p ∉ a.list l := by
  intro hl
  obtain ⟨cl, hcl⟩ := h.listed.mpr ⟨l, hl⟩
  exact h.heldChain cl hcl

theorem Repr.newBlockinfo (h : Repr c a) :
    ∃ p c' free', c.newBlockinfo = some (p, c') ∧ Held c' ⟨a.chain, a.list, free'⟩ p ∧
      c'.info = c.info := by
  have hcount : 0 < entryCount Info := by simp [entryCount, LazyAllocator.poolCount]
  obtain ⟨p, alloc, free', new, hacquire, hfree, hp, hperm, hbound, hnew⟩ := h.free.acquire hcount
  have hmem (q : Ptr) : q = p ∨ q ∈ free' ↔ q ∈ new ∨ q ∈ a.free := by
    rw [← List.mem_append, ← hperm.mem_iff, List.mem_cons]
  have hout (q : Ptr) (hq : q = p ∨ q ∈ free') (cl : Line) : q ∉ a.chain cl := by
    intro hcl
    rcases (hmem q).mp hq with hq | hq
    · exact absurd (h.allocated.mpr (Or.inr ⟨cl, hcl⟩)) (not_lt.mpr (hnew q hq))
    · exact h.notFree hq cl hcl
  refine ⟨p, { c with allocator := alloc }, free', ?_, ?_, rfl⟩
  · simp [BlockCache.newBlockinfo, hacquire]
  · refine ⟨h.chains, h.lists, hfree, h.line, h.listed, ?_, fun hq => hout _ (Or.inr hq), hp,
      hout p (Or.inl rfl)⟩
    intro q
    rw [← or_assoc, hmem q]
    change q < alloc.pools * entryCount Info ↔ _
    rw [hbound, h.allocated]
    tauto

/-- The block in hand put at the front of its chain and of a list. -/
theorem Held.enlist (h : Held c a p) (info : Info) (l : ListId) :
    Repr (((c.setInfo p info).addToClList p).addToList l p)
      ⟨Function.update a.chain (cacheline (BlockInfo.pc info))
          (p :: a.chain (cacheline (BlockInfo.pc info))),
        Function.update a.list l (p :: a.list l), a.free⟩ := by
  have hpc : (c.setInfo p info).pcAt p = BlockInfo.pc info := by simp [pcAt, setInfo]
  refine ⟨?_, h.lists.push h.heldList, h.free, ?_, ?_, ?_, ?_⟩
  · rw [← hpc]
    exact h.chains.push h.heldChain
  · intro q cl hq
    rcases mem_update_cons.mp hq with ⟨rfl, rfl⟩ | hq
    · exact congrArg cacheline hpc.symm
    · have hqp : q ≠ p := fun hqp => h.heldChain cl (hqp ▸ hq)
      simpa [pcAt, setInfo, addToClList, addToList, Function.update_of_ne hqp] using h.line hq
  · intro q
    simp only [mem_update_cons, exists_or, h.listed]
    simp
  · intro q
    simp only [mem_update_cons, exists_or]
    change q < c.allocator.pools * entryCount Info ↔ _
    rw [h.allocated]
    simp only [exists_and_left, exists_eq, and_true]
    tauto
  · intro q hq cl hcl
    rcases mem_update_cons.mp hcl with ⟨rfl, -⟩ | hcl
    · exact h.heldFree hq
    · exact h.notFree hq cl hcl

/-- Adding a block puts a pointer that is in no list at the front of its chain and of a list. -/
theorem Repr.addBlock (h : Repr c a) (info : Info) (l : ListId) :
    ∃ p c' free', c.addBlock info l = some c' ∧
      Repr c' ⟨Function.update a.chain (cacheline (BlockInfo.pc info))
          (p :: a.chain (cacheline (BlockInfo.pc info))),
        Function.update a.list l (p :: a.list l), free'⟩ ∧
      (∀ cl, p ∉ a.chain cl) ∧ c'.info = Function.update c.info p info := by
  obtain ⟨p, c₁, free', hnew, hheld, hinfo⟩ := h.newBlockinfo
  refine ⟨p, _, free', ?_, hheld.enlist info l, hheld.heldChain, ?_⟩
  · rw [BlockCache.addBlock, hnew]
    rfl
  · rw [← hinfo]
    rfl

-- ---------------------------------------------------------------------------
-- Removal
-- ---------------------------------------------------------------------------

theorem filter_bne_eq (xs : List Ptr) (p : Ptr) :
    xs.filter (· != p) = xs.filter (· ∉ [p]) := by
  apply List.filter_congr
  simp [bne, beq_eq_decide]

theorem Repr.remove (h : Repr c a) {cl : Line} (hp : p ∈ a.chain cl) (info : Info) :
    Repr ((((c.setInfo p info).removeFromClList p).removeFromList p).deleteBlockinfo p)
      (a.drop [p]) := by
  obtain ⟨l, hl⟩ := h.listed.mp ⟨cl, hp⟩
  have hfree : p ∉ a.free := fun hf => h.notFree hf cl hp
  have hchain (cl : Line) (q : Ptr) : q ∈ (a.drop [p]).chain cl ↔ q ∈ a.chain cl ∧ q ≠ p := by
    simp [CacheLists.drop]
  have hlist (l : ListId) (q : Ptr) : q ∈ (a.drop [p]).list l ↔ q ∈ a.list l ∧ q ≠ p := by
    simp [CacheLists.drop]
  refine ⟨?_, ?_, h.free.link hfree, ?_, ?_, ?_, ?_⟩
  · have := h.chains.unlink hp
    simp only [filter_bne_eq] at this
    exact this
  · have := h.lists.unlink hl
    simp only [filter_bne_eq] at this
    exact this
  · intro q cl hq
    obtain ⟨hq, hqp⟩ := (hchain cl q).mp hq
    simpa [pcAt, setInfo, removeFromClList, removeFromList, deleteBlockinfo,
      Function.update_of_ne hqp] using h.line hq
  · intro q
    simp only [hchain, hlist, exists_and_right, h.listed]
  · intro q
    change q < c.allocator.pools * entryCount Info ↔ q ∈ p :: a.free ∨ _
    simp only [hchain, exists_and_right, h.allocated, List.mem_cons]
    by_cases hqp : q = p
    · subst hqp
      simp only [true_or, iff_true]
      exact Or.inr ⟨cl, hp⟩
    · simp [hqp]
  · intro q hq cl hcl
    obtain ⟨hcl, hqp⟩ := (hchain cl q).mp hcl
    rcases List.mem_cons.mp hq with rfl | hq
    · exact hqp rfl
    · exact h.notFree hq cl hcl

/-- The blocks of a list that a flush of the range removes. -/
def hit (c : BlockCache Info) (start stop : Addr) (xs : List Ptr) : List Ptr :=
  xs.filter fun p => BlockInfo.intersect (c.info p) start stop

theorem Repr.clearBlock (h : Repr c a) {cl : Line} (hp : p ∈ a.chain cl) (start stop : Addr) :
    Repr (c.clearBlock start stop p) (a.drop (c.hit start stop [p])) ∧
      ∀ q, q ∉ c.hit start stop [p] → (c.clearBlock start stop p).info q = c.info q := by
  rw [BlockCache.clearBlock, hit]
  cases hi : BlockInfo.intersect (c.info p) start stop with
  | true =>
    simp only [if_true, List.filter_cons, hi, List.filter_nil]
    refine ⟨h.remove hp _, ?_⟩
    intro q hq
    exact Function.update_of_ne (List.ne_of_not_mem_cons hq) ..
  | false =>
    simp only [Bool.false_eq_true, if_false, List.filter_cons, hi, List.filter_nil]
    exact ⟨a.drop_nil.symm ▸ h, fun _ _ => trivial⟩

/-- A loop over the rest of a chain or of a list: `xs` are the blocks still to visit, and `next`
threads them in every state the loop goes through. -/
theorem Repr.clearRangeWalk (start stop : Addr) (next : BlockCache Info → Ptr → Option Ptr)
    (view : CacheLists → List Ptr)
    (hview : ∀ (a : CacheLists) (gone : List Ptr), view (a.drop gone) =
      (view a).filter (· ∉ gone))
    (hmem : ∀ {c : BlockCache Info} {a : CacheLists} {p : Ptr}, Repr c a → p ∈ view a →
      ∃ cl, p ∈ a.chain cl)
    (hwalk : ∀ {c : BlockCache Info} {a : CacheLists} {kept xs : List Ptr}, Repr c a →
      view a = kept ++ xs → Walk (next c) xs.head? xs)
    {kept xs : List Ptr} (h : Repr c a) (hv : view a = kept ++ xs) (hd : (view a).Nodup)
    (fuel : Nat) :
    (∀ c', c.clearRangeWalk start stop next fuel xs.head? = some c' →
      Repr c' (a.drop (c.hit start stop xs)) ∧
        ∀ q, q ∉ c.hit start stop xs → c'.info q = c.info q) ∧
      (xs.length ≤ fuel → (c.clearRangeWalk start stop next fuel xs.head?).isSome) := by
  induction xs generalizing c a kept fuel with
  | nil =>
    have hrun : c.clearRangeWalk start stop next fuel none = some c := by cases fuel <;> rfl
    rw [List.head?_nil, hrun]
    refine ⟨?_, fun _ => rfl⟩
    rintro c' ⟨rfl⟩
    exact ⟨a.drop_nil.symm ▸ h, fun _ _ => rfl⟩
  | cons x xs ih =>
    cases fuel with
    | zero => exact ⟨nofun, nofun⟩
    | succ fuel =>
      have hx : x ∈ view a := by simp [hv]
      obtain ⟨cl, hcl⟩ := hmem h hx
      obtain ⟨hclear, hinfo⟩ := h.clearBlock hcl start stop
      have hnext : next c x = xs.head? := (hwalk h hv).tail.head_eq
      have hxs : x ∉ xs := by
        rw [hv] at hd
        exact (List.nodup_cons.mp (List.nodup_append.mp hd).2.1).1
      have hsub {q : Ptr} (hq : q ∈ c.hit start stop [x]) : q = x :=
        List.mem_singleton.mp (List.mem_of_mem_filter hq)
      have hsame : (c.clearBlock start stop x).hit start stop xs = c.hit start stop xs := by
        apply List.filter_congr
        intro q hq
        rw [hinfo q fun hqx => hxs (hsub hqx ▸ hq)]
      have hgone : c.hit start stop (x :: xs) = c.hit start stop [x] ++ c.hit start stop xs := by
        rw [hit, hit, hit, ← List.filter_append, List.singleton_append]
      obtain ⟨kept', hv'⟩ : ∃ kept', view (a.drop (c.hit start stop [x])) = kept' ++ xs := by
        have hkeep : xs.filter (· ∉ c.hit start stop [x]) = xs := by
          apply List.filter_eq_self.mpr
          intro q hq
          simpa using fun hqx => hxs (hsub hqx ▸ hq)
        refine ⟨(kept ++ [x]).filter (· ∉ c.hit start stop [x]), ?_⟩
        rw [hview, hv, List.append_cons, List.filter_append, hkeep]
      have hd' : (view (a.drop (c.hit start stop [x]))).Nodup := by
        rw [hview]
        exact hd.filter _
      obtain ⟨hrun, hfuel⟩ := ih hclear hv' hd' fuel
      have hstep : c.clearRangeWalk start stop next (fuel + 1) (x :: xs).head? =
          (c.clearBlock start stop x).clearRangeWalk start stop next fuel xs.head? := by
        rw [← hnext]
        rfl
      rw [hstep, hgone]
      refine ⟨?_, fun hle => hfuel (Nat.le_of_succ_le_succ hle)⟩
      intro c' hc'
      obtain ⟨hrepr, hkeep⟩ := hrun c' hc'
      rw [hsame, CacheLists.drop_append] at hrepr
      refine ⟨hrepr, ?_⟩
      intro q hq
      rw [List.mem_append, not_or] at hq
      rw [hkeep q (hsame ▸ hq.2), hinfo q hq.1]

theorem Repr.clearChain (h : Repr c a) (start stop : Addr) (cl : Line) (fuel : Nat) :
    (∀ c', c.clearRangeWalk start stop nextSameCl fuel (c.sameCl.head cl) = some c' →
      Repr c' (a.drop (c.hit start stop (a.chain cl))) ∧
        ∀ q, q ∉ c.hit start stop (a.chain cl) → c'.info q = c.info q) ∧
      ((a.chain cl).length ≤ fuel →
        (c.clearRangeWalk start stop nextSameCl fuel (c.sameCl.head cl)).isSome) := by
  have hhead : c.sameCl.head cl = (a.chain cl).head? := (h.chains.segment cl).head_eq
  rw [hhead]
  refine Repr.clearRangeWalk start stop nextSameCl (fun a => a.chain cl) (fun _ _ => rfl)
    (fun _ hp => ⟨cl, hp⟩) ?_ h (List.nil_append _).symm (h.chains.nodup cl) fuel
  intro c a kept xs h hv
  exact Segment.walk_suffix (hv ▸ h.chains.segment cl)

theorem Repr.clearActive (h : Repr c a) (start stop : Addr) (fuel : Nat) :
    (∀ c', c.clearRangeWalk start stop nextInList fuel (c.list.head .active) = some c' →
      Repr c' (a.drop (c.hit start stop (a.list .active))) ∧
        ∀ q, q ∉ c.hit start stop (a.list .active) → c'.info q = c.info q) ∧
      ((a.list .active).length ≤ fuel →
        (c.clearRangeWalk start stop nextInList fuel (c.list.head .active)).isSome) := by
  have hhead : c.list.head .active = (a.list .active).head? :=
    (h.lists.segment .active).head_eq
  rw [hhead]
  refine Repr.clearRangeWalk start stop nextInList (fun a => a.list .active) (fun _ _ => rfl)
    (fun h hp => h.listed.mpr ⟨.active, hp⟩) ?_ h (List.nil_append _).symm
    (h.lists.nodup .active) fuel
  intro c a kept xs h hv
  exact Segment.walk_suffix (hv ▸ h.lists.segment .active)

/-- What a flush of the range removed: the blocks `gone`, those `visited` that intersect it. -/
structure Flushed (c c' : BlockCache Info) (a : CacheLists) (start stop : Addr)
    (visited : Ptr → Prop) (gone : List Ptr) : Prop where
  repr : Repr c' (a.drop gone)
  info : ∀ q, q ∉ gone → c'.info q = c.info q
  mem : ∀ q, q ∈ gone ↔ visited q ∧ BlockInfo.intersect (c.info q) start stop = true

theorem mem_hit {start stop : Addr} {xs : List Ptr} :
    p ∈ c.hit start stop xs ↔ p ∈ xs ∧ BlockInfo.intersect (c.info p) start stop = true :=
  List.mem_filter

theorem Repr.clearLines (h : Repr c a) (start stop : Addr) (fuel count cl : Nat)
    (hcl : cl + count ≤ 2 ^ 15) :
    (∀ c', c.clearLines fuel start stop count cl = some c' → ∃ gone,
      Flushed c c' a start stop
        (fun p => ∃ k, cl ≤ k ∧ k < cl + count ∧ p ∈ a.chain (BitVec.ofNat 15 k)) gone) ∧
      ((∀ line, (a.chain line).length ≤ fuel) →
        (c.clearLines fuel start stop count cl).isSome) := by
  induction count generalizing c a cl with
  | zero =>
    refine ⟨?_, fun _ => rfl⟩
    rintro c' ⟨rfl⟩
    exact ⟨[], a.drop_nil.symm ▸ h, fun _ _ => rfl, fun q => by simp; omega⟩
  | succ count ih =>
    obtain ⟨hchain, hfuel⟩ := h.clearChain start stop (BitVec.ofNat 15 cl) fuel
    constructor
    · intro c' hc'
      obtain ⟨c₁, hc₁, hc'⟩ := Option.bind_eq_some_iff.mp hc'
      obtain ⟨hrepr, hinfo⟩ := hchain c₁ hc₁
      obtain ⟨gone, hgone⟩ := (ih hrepr (cl + 1) (by omega)).1 c' hc'
      refine ⟨c.hit start stop (a.chain (BitVec.ofNat 15 cl)) ++ gone, ?_, ?_, ?_⟩
      · rw [← CacheLists.drop_append]
        exact hgone.repr
      · intro q hq
        rw [List.mem_append, not_or] at hq
        rw [hgone.info q hq.2, hinfo q hq.1]
      · intro q
        -- a block of a later line is on no earlier one, so the first line leaves it alone
        have hlater (k : Nat) (hk : cl < k) (hk' : k < 2 ^ 15)
            (hq : q ∈ a.chain (BitVec.ofNat 15 k)) :
            q ∉ c.hit start stop (a.chain (BitVec.ofNat 15 cl)) := by
          intro hhit
          have hline := h.chains.disjoint hq (mem_hit.mp hhit).1
          have := congrArg BitVec.toNat hline
          rw [BitVec.toNat_ofNat, BitVec.toNat_ofNat, Nat.mod_eq_of_lt hk',
            Nat.mod_eq_of_lt (by omega)] at this
          omega
        rw [List.mem_append, mem_hit, hgone.mem]
        constructor
        · rintro (⟨hq, hi⟩ | ⟨⟨k, hk, hk', hq⟩, hi⟩)
          · exact ⟨⟨cl, le_refl _, by omega, hq⟩, hi⟩
          · have hq := List.mem_filter.mp hq
            rw [hinfo q (by simpa using hq.2)] at hi
            exact ⟨⟨k, by omega, by omega, hq.1⟩, hi⟩
        · rintro ⟨⟨k, hk, hk', hq⟩, hi⟩
          rcases Nat.eq_or_lt_of_le hk with rfl | hk
          · exact Or.inl ⟨hq, hi⟩
          · have hout := hlater k hk (by omega) hq
            refine Or.inr ⟨⟨k, hk, by omega, ?_⟩, ?_⟩
            · exact List.mem_filter.mpr ⟨hq, by simpa using hout⟩
            · rw [hinfo q hout]
              exact hi
    · intro hlen
      obtain ⟨c₁, hc₁⟩ := Option.isSome_iff_exists.mp (hfuel (hlen _))
      obtain ⟨hrepr, -⟩ := hchain c₁ hc₁
      have hrest := (ih hrepr (cl + 1) (by omega)).2 fun line =>
        (List.length_filter_le ..).trans (hlen line)
      rw [BlockCache.clearLines, hc₁]
      exact hrest

/-- The blocks that `clear_range` looks at. -/
def visited (a : CacheLists) (start stop : Addr) (p : Ptr) : Prop :=
  a.list .active ≠ [] ∧
    if cacheline start < cacheline (stop - 1) then
      ∃ cl, cacheline start ≤ cl ∧ cl ≤ cacheline (stop - 1) ∧ p ∈ a.chain cl
    else p ∈ a.list .active

theorem Repr.clearRange (h : Repr c a) (start stop : Addr) (fuel : Nat) :
    (∀ c', c.clearRange fuel start stop = some c' →
      ∃ gone, Flushed c c' a start stop (visited a start stop) gone) ∧
      ((∀ line, (a.chain line).length ≤ fuel) → (∀ l, (a.list l).length ≤ fuel) →
        (c.clearRange fuel start stop).isSome) := by
  have hhead : c.list.head .active = (a.list .active).head? :=
    (h.lists.segment .active).head_eq
  rw [BlockCache.clearRange, hhead]
  by_cases hactive : a.list .active = []
  · rw [if_pos (by rw [hactive]; rfl)]
    refine ⟨?_, fun _ _ => rfl⟩
    rintro c' ⟨rfl⟩
    exact ⟨[], a.drop_nil.symm ▸ h, fun _ _ => rfl, fun q => by simp [visited, hactive]⟩
  · rw [if_neg (by simpa using hactive)]
    by_cases hlt : cacheline start < cacheline (stop - 1)
    · rw [if_pos hlt]
      have hbound := (cacheline (stop - 1)).isLt
      have hlt' : (cacheline start).toNat < (cacheline (stop - 1)).toNat := hlt
      obtain ⟨hrun, hfuel⟩ := h.clearLines start stop fuel
        ((cacheline (stop - 1)).toNat + 1 - (cacheline start).toNat) (cacheline start).toNat
        (by omega)
      refine ⟨?_, fun hlen _ => hfuel hlen⟩
      intro c' hc'
      obtain ⟨gone, hgone⟩ := hrun c' hc'
      refine ⟨gone, hgone.repr, hgone.info, ?_⟩
      intro q
      rw [hgone.mem, visited, if_pos hlt]
      refine and_congr_left fun _ => ?_
      constructor
      · rintro ⟨k, hk, hk', hq⟩
        have hkb : (BitVec.ofNat 15 k).toNat = k := by
          rw [BitVec.toNat_ofNat, Nat.mod_eq_of_lt (by omega)]
        refine ⟨hactive, BitVec.ofNat 15 k, ?_, ?_, hq⟩
        · rw [BitVec.le_def, hkb]
          exact hk
        · rw [BitVec.le_def, hkb]
          omega
      · rintro ⟨-, line, hl, hu, hq⟩
        rw [BitVec.le_def] at hl hu
        refine ⟨line.toNat, hl, by omega, ?_⟩
        rwa [BitVec.ofNat_toNat, BitVec.setWidth_eq]
    · rw [if_neg hlt, ← hhead]
      obtain ⟨hrun, hfuel⟩ := h.clearActive start stop fuel
      refine ⟨?_, fun _ hlen => hfuel (hlen .active)⟩
      intro c' hc'
      obtain ⟨hrepr, hinfo⟩ := hrun c' hc'
      refine ⟨_, hrepr, hinfo, ?_⟩
      intro q
      rw [mem_hit, visited, if_neg hlt]
      simp [hactive]

-- ---------------------------------------------------------------------------
-- Clearing
-- ---------------------------------------------------------------------------

omit [BlockInfo Info] in
/-- `clear` releases the blocks without unlinking them. -/
theorem clearWalk_eq {xs : List Ptr} {p : Option Ptr} (h : Walk c.list.next p xs) (fuel : Nat) :
    (∀ c', c.clearWalk fuel p = some c' →
      c' = { c with allocator := xs.foldl LazyAllocator.link c.allocator }) ∧
      (xs.length ≤ fuel → (c.clearWalk fuel p).isSome) := by
  induction xs generalizing c p fuel with
  | nil =>
    obtain rfl : p = none := h.head_eq
    have hrun : c.clearWalk fuel none = some c := by cases fuel <;> rfl
    rw [hrun]
    refine ⟨?_, fun _ => rfl⟩
    rintro c' ⟨rfl⟩
    rfl
  | cons x xs ih =>
    obtain rfl : p = some x := h.head_eq
    cases fuel with
    | zero => exact ⟨nofun, nofun⟩
    | succ fuel =>
      obtain ⟨hrun, hfuel⟩ := @ih (c.deleteBlockinfo x) _ h.tail fuel
      exact ⟨hrun, fun hle => hfuel (Nat.le_of_succ_le_succ hle)⟩

omit [BlockInfo Info] in
/-- `clear` and `initialize` on lists that the links represent. -/
theorem clear_lists (hlists : Represents c.list a.list) (hfree : c.allocator.Free a.free)
    (hout : ∀ l, ∀ p ∈ a.list l, p ∉ a.free) (fuel : Nat) :
    (∀ c', (c.clear fuel).map initializeTags = some c' →
      Represents c'.sameCl a.cleared.chain ∧ Represents c'.list a.cleared.list ∧
        c'.allocator.Free a.cleared.free ∧ c'.allocator.pools = c.allocator.pools) ∧
      ((∀ l, (a.list l).length ≤ fuel) → ((c.clear fuel).map initializeTags).isSome) := by
  have hactive : Walk c.list.next (c.list.head .active) (a.list .active) :=
    (hlists.segment .active).walk
  have hdormant : Walk c.list.next (c.list.head .dormant) (a.list .dormant) :=
    (hlists.segment .dormant).walk
  have hfree₁ := hfree.foldl_link (hlists.nodup .active) (hout .active)
  have hfree₂ := hfree₁.foldl_link (hlists.nodup .dormant) fun p hp hmem => by
    rcases List.mem_append.mp hmem with hmem | hmem
    · exact nomatch hlists.disjoint hp (List.mem_reverse.mp hmem)
    · exact hout .dormant p hp hmem
  let c₁ : BlockCache Info :=
    { c with allocator := (a.list .active).foldl LazyAllocator.link c.allocator }
  obtain ⟨hrun₁, hfuel₁⟩ := clearWalk_eq hactive fuel
  obtain ⟨hrun₂, hfuel₂⟩ := @clearWalk_eq _ (c₁.setListHead .active none) _ _ hdormant fuel
  have hhead : (c₁.setListHead .active none).list.head .dormant = c.list.head .dormant := by
    simp [setListHead, c₁]
  constructor
  · intro c' hc'
    obtain ⟨c₃, hc₃, rfl⟩ := Option.map_eq_some_iff.mp hc'
    obtain ⟨c₂, hc₂, hc₃⟩ := Option.bind_eq_some_iff.mp hc₃
    obtain rfl := hrun₁ c₂ hc₂
    obtain ⟨c₂, hc₂, hc₃⟩ := Option.bind_eq_some_iff.mp hc₃
    obtain rfl := hrun₂ c₂ (hhead ▸ hc₂)
    obtain rfl := Option.some.inj hc₃
    refine ⟨⟨fun _ => rfl, fun _ => List.nodup_nil, nofun⟩, ⟨?_, fun _ => List.nodup_nil, nofun⟩,
      hfree₂, ?_⟩
    · intro l
      cases l <;> rfl
    · exact (LazyAllocator.pools_foldl_link ..).trans (LazyAllocator.pools_foldl_link ..)
  · intro hlen
    obtain ⟨c₂, hc₂⟩ := Option.isSome_iff_exists.mp (hfuel₁ (hlen .active))
    obtain rfl := hrun₁ c₂ hc₂
    obtain ⟨c₃, hc₃⟩ := Option.isSome_iff_exists.mp (hfuel₂ (hlen .dormant))
    rw [← hhead] at hc₃
    simp only [BlockCache.clear, hc₂, Option.bind_eq_bind, Option.bind_some]
    rw [hc₃]
    rfl

theorem Repr.clear (h : Repr c a) (fuel : Nat) :
    (∀ c', (c.clear fuel).map initializeTags = some c' → Repr c' a.cleared) ∧
      ((∀ l, (a.list l).length ≤ fuel) → ((c.clear fuel).map initializeTags).isSome) := by
  have hout : ∀ l, ∀ p ∈ a.list l, p ∉ a.free := by
    intro l p hp hf
    obtain ⟨cl, hcl⟩ := h.listed.mpr ⟨l, hp⟩
    exact h.notFree hf cl hcl
  obtain ⟨hrun, hfuel⟩ := clear_lists h.lists h.free hout fuel
  refine ⟨?_, hfuel⟩
  intro c' hc'
  obtain ⟨hchains, hlists, hfree, hpools⟩ := hrun c' hc'
  refine ⟨hchains, hlists, hfree, nofun, by simp [CacheLists.cleared], ?_,
    fun _ _ => List.not_mem_nil⟩
  intro p
  rw [hpools, h.allocated, h.listed, CacheLists.mem_cleared]
  simp [CacheLists.cleared]

/-- A block in hand survives a `clear`. -/
theorem Held.clear (h : Held c a p) (fuel : Nat) :
    (∀ c', (c.clear fuel).map initializeTags = some c' → Held c' a.cleared p) ∧
      ((∀ l, (a.list l).length ≤ fuel) → ((c.clear fuel).map initializeTags).isSome) := by
  have hout : ∀ l, ∀ q ∈ a.list l, q ∉ a.free := by
    intro l q hq hf
    obtain ⟨cl, hcl⟩ := h.listed.mpr ⟨l, hq⟩
    exact h.notFree hf cl hcl
  obtain ⟨hrun, hfuel⟩ := clear_lists h.lists h.free hout fuel
  refine ⟨?_, hfuel⟩
  intro c' hc'
  obtain ⟨hchains, hlists, hfree, hpools⟩ := hrun c' hc'
  refine ⟨hchains, hlists, hfree, nofun, by simp [CacheLists.cleared], ?_,
    fun _ _ => List.not_mem_nil, ?_, fun _ => List.not_mem_nil⟩
  · intro q
    rw [hpools, h.allocated, h.listed, CacheLists.mem_cleared]
    simp [CacheLists.cleared]
  · rw [CacheLists.mem_cleared, not_or, not_exists]
    exact ⟨h.heldFree, h.heldList⟩

-- ---------------------------------------------------------------------------
-- Search
-- ---------------------------------------------------------------------------

theorem Repr.raise (h : Repr c a) (hp : p ∈ a.chain (cacheline (c.pcAt p))) :
    Repr (c.raiseInClList p) (a.raise (cacheline (c.pcAt p)) p) := by
  have hchain (cl : Line) (q : Ptr) :
      q ∈ (a.raise (cacheline (c.pcAt p)) p).chain cl ↔ q ∈ a.chain cl := by
    by_cases hcl : cl = cacheline (c.pcAt p)
    · subst hcl
      by_cases hq : q = p
      · subst hq
        simp [CacheLists.raise, hp]
      · simp [CacheLists.raise, hq]
    · simp [CacheLists.raise, Function.update_of_ne hcl]
  have hunlinked := h.chains.unlink hp
  have hout (cl : Line) : p ∉ (a.chain cl).filter (· != p) := by simp
  refine ⟨?_, h.lists, h.free, ?_, ?_, ?_, ?_⟩
  · have hpush := hunlinked.push (k := cacheline (c.pcAt p)) hout
    have heq : Function.update (fun cl => (a.chain cl).filter (· != p)) (cacheline (c.pcAt p))
        (p :: (a.chain (cacheline (c.pcAt p))).filter (· != p)) =
        (a.raise (cacheline (c.pcAt p)) p).chain := by
      funext cl
      by_cases hcl : cl = cacheline (c.pcAt p)
      · subst hcl
        simp [CacheLists.raise]
      · have hpcl : p ∉ a.chain cl := fun hpcl => hcl (h.line hpcl)
        simp only [CacheLists.raise, Function.update_of_ne hcl]
        apply List.filter_eq_self.mpr
        intro q hq
        simpa using ne_of_mem_of_not_mem hq hpcl
    rw [heq] at hpush
    exact hpush
  · intro q cl hq
    exact h.line ((hchain cl q).mp hq)
  · intro q
    simp only [hchain]
    exact h.listed
  · intro q
    simp only [hchain]
    exact h.allocated
  · intro q hq cl hcl
    exact h.notFree hq cl ((hchain cl q).mp hcl)

/-- The first block of a chain for this pc. -/
def lookup (c : BlockCache Info) (a : CacheLists) (pc : Addr) : Option Ptr :=
  (a.chain (cacheline pc)).find? fun p => c.pcAt p = pc

/-- What `find` answers, and the cache it leaves. -/
def Found (c : BlockCache Info) (a : CacheLists) (pc : Addr)
    (out : Option Ptr × BlockCache Info) : Prop :=
  out.1 = c.lookup a pc ∧ out.2.info = c.info ∧
    ∃ a', Repr out.2 a' ∧ (a' = a ∨ ∃ p, out.1 = some p ∧ a' = a.raise (cacheline pc) p)

theorem Repr.findWalk (h : Repr c a) (pc : Addr) {kept xs : List Ptr} {x : Ptr}
    (hv : a.chain (cacheline pc) = kept ++ x :: xs)
    (hkept : ∀ p ∈ kept ++ [x], c.pcAt p ≠ pc) (fuel : Nat) :
    (∀ out, c.findWalk pc fuel (some x) = some out → Found c a pc out) ∧
      (xs.length < fuel → (c.findWalk pc fuel (some x)).isSome) := by
  induction xs generalizing kept x fuel with
  | nil =>
    have hnext : c.sameCl.next x = none :=
      (Segment.walk_suffix (hv ▸ h.chains.segment (cacheline pc))).tail.head_eq
    cases fuel with
    | zero => exact ⟨nofun, nofun⟩
    | succ fuel =>
      rw [BlockCache.findWalk, hnext]
      refine ⟨?_, fun _ => rfl⟩
      rintro out ⟨rfl⟩
      refine ⟨?_, rfl, a, h, Or.inl rfl⟩
      symm
      rw [lookup, hv, List.find?_eq_none]
      intro p hp
      simpa using hkept p hp
  | cons y ys ih =>
    have hnext : c.sameCl.next x = some y :=
      (Segment.walk_suffix (hv ▸ h.chains.segment (cacheline pc))).tail.head_eq
    cases fuel with
    | zero => exact ⟨nofun, nofun⟩
    | succ fuel =>
      rw [BlockCache.findWalk, hnext]
      by_cases hy : c.pcAt y = pc
      · have hmem : y ∈ a.chain (cacheline (c.pcAt y)) := by
          rw [hy, hv]
          simp
        simp only [if_pos hy]
        refine ⟨?_, fun _ => rfl⟩
        rintro out ⟨rfl⟩
        refine ⟨?_, rfl, _, h.raise hmem, Or.inr ⟨y, rfl, by rw [hy]⟩⟩
        symm
        rw [lookup, hv, List.append_cons, List.find?_append, List.find?_eq_none.mpr]
        · simp [hy]
        · intro p hp
          simpa using hkept p hp
      · simp only [if_neg hy]
        rw [List.append_cons] at hv
        obtain ⟨hrun, hfuel⟩ := ih hv (fun p hp => by
          rcases List.mem_append.mp hp with hp | hp
          · exact hkept p hp
          · rw [List.mem_singleton.mp hp]
            exact hy) fuel
        exact ⟨hrun, fun hlt => hfuel (Nat.lt_of_succ_lt_succ hlt)⟩

theorem Repr.find (h : Repr c a) (pc : Addr) (fuel : Nat) :
    (∀ out, c.find fuel pc = some out → Found c a pc out) ∧
      ((a.chain (cacheline pc)).length ≤ fuel → (c.find fuel pc).isSome) := by
  have hhead : c.sameCl.head (cacheline pc) = (a.chain (cacheline pc)).head? :=
    (h.chains.segment (cacheline pc)).head_eq
  rw [BlockCache.find, hhead]
  cases hv : a.chain (cacheline pc) with
  | nil =>
    refine ⟨?_, fun _ => rfl⟩
    rintro out ⟨rfl⟩
    refine ⟨?_, rfl, a, h, Or.inl rfl⟩
    rw [lookup, hv]
    rfl
  | cons x xs =>
    simp only [List.head?_cons]
    by_cases hx : c.pcAt x = pc
    · rw [if_pos hx]
      refine ⟨?_, fun _ => rfl⟩
      rintro out ⟨rfl⟩
      refine ⟨?_, rfl, a, h, Or.inl rfl⟩
      simp [lookup, hv, hx]
    · rw [if_neg hx]
      exact h.findWalk pc (List.nil_append (x :: xs) ▸ hv) (by simpa using hx) fuel

-- ---------------------------------------------------------------------------
-- Every reachable cache
-- ---------------------------------------------------------------------------

theorem Repr.run (h : Repr c a) {fuel : Nat} {op : Op Info} (hrun : op.run fuel c = some c') :
    ∃ a', Repr c' a' := by
  cases op with
  | add info l =>
    obtain ⟨p, c₁, free', hadd, hrepr, -⟩ := h.addBlock info l
    obtain rfl : c₁ = c' := Option.some.inj (hadd.symm.trans hrun)
    exact ⟨_, hrepr⟩
  | find pc =>
    obtain ⟨out, hout, rfl⟩ := Option.map_eq_some_iff.mp hrun
    obtain ⟨-, -, a', hrepr, -⟩ := (h.find pc fuel).1 out hout
    exact ⟨a', hrepr⟩
  | clearRange start stop =>
    obtain ⟨gone, hgone⟩ := (h.clearRange start stop fuel).1 c' hrun
    exact ⟨_, hgone.repr⟩
  | clear => exact ⟨_, (h.clear fuel).1 c' hrun⟩

theorem Reachable.repr (h : Reachable c) : ∃ a, Repr c a := by
  induction h with
  | construct info sameCl list next => exact ⟨_, construct_repr info sameCl list next⟩
  | step fuel op _ hrun ih =>
    obtain ⟨a, hrepr⟩ := ih
    exact hrepr.run hrun

/-- A block is on the free list of the allocator. -/
def Released (c : BlockCache Info) (p : Ptr) : Prop :=
  ∃ free, Walk c.allocator.next c.allocator.chunks free ∧ p ∈ free

/-- A block of some pool that was acquired and not released since. -/
def Live (c : BlockCache Info) (p : Ptr) : Prop :=
  p < c.allocator.pools * entryCount Info ∧ ¬c.Released p

theorem Repr.released_iff (h : Repr c a) : c.Released p ↔ p ∈ a.free := by
  constructor
  · rintro ⟨free, hwalk, hp⟩
    rwa [h.free.walk.unique hwalk]
  · intro hp
    exact ⟨a.free, h.free.walk, hp⟩

theorem Repr.live_iff (h : Repr c a) : c.Live p ↔ ∃ cl, p ∈ a.chain cl := by
  rw [Live, h.released_iff, h.allocated]
  constructor
  · rintro ⟨hp | hp, hfree⟩
    · exact absurd hp hfree
    · exact hp
  · intro hp
    refine ⟨Or.inr hp, fun hfree => ?_⟩
    obtain ⟨cl, hcl⟩ := hp
    exact h.notFree hfree cl hcl

/-- The back links of the live blocks are the inverses of the forward links. -/
def BackLinks {κ : Type} (l : Links κ Ptr) (live : Ptr → Prop) : Prop :=
  (∀ p, live p → ∃ cell, l.prev p = some cell ∧ l.read cell = some p) ∧
    (∀ k p, l.head k = some p → l.prev p = some (.head k)) ∧
    ∀ p q, live p → l.next p = some q → l.prev q = some (.next p)

/-- The representation invariant. Each walk visits the blocks in question and ends. -/
structure WellFormed (c : BlockCache Info) : Prop where
  /-- A live block is on the chain of its line once and on no other; a chain has no other blocks. -/
  chains : ∀ cl, ∃ chain, Walk c.sameCl.next (c.sameCl.head cl) chain ∧
    (∀ p, c.Live p → chain.count p = if cl = cacheline (c.pcAt p) then 1 else 0) ∧
    ∀ p ∈ chain, c.Live p ∧ ¬c.Released p
  /-- A live block is on one of the two lists once; the lists have no other blocks. -/
  lists : ∃ active dormant, Walk c.list.next (c.list.head .active) active ∧
    Walk c.list.next (c.list.head .dormant) dormant ∧
    (∀ p, c.Live p → active.count p + dormant.count p = 1) ∧
    ∀ p ∈ active ++ dormant, c.Live p ∧ ¬c.Released p
  chainBack : BackLinks c.sameCl c.Live
  listBack : BackLinks c.list c.Live

theorem backLinks_of_represents {κ : Type} [DecidableEq κ] {l : Links κ Ptr}
    {lists : κ → List Ptr} (h : Represents l lists) {live : Ptr → Prop}
    (hlive : ∀ p, live p ↔ ∃ k, p ∈ lists k) : BackLinks l live := by
  refine ⟨?_, ?_, ?_⟩
  · intro p hp
    obtain ⟨k, hk⟩ := (hlive p).mp hp
    obtain ⟨cell, hprev, hread, -⟩ := (h.segment k).prev_spec hk
    exact ⟨cell, hprev, hread⟩
  · intro k p hhead
    have hs := h.segment k
    have hk := hs.head_eq.symm.trans hhead
    cases hl : lists k with
    | nil => simp [hl] at hk
    | cons x xs =>
      rw [hl] at hs hk
      obtain rfl : x = p := Option.some.inj hk
      exact hs.2.1
  · intro p q hp hnext
    obtain ⟨k, hk⟩ := (hlive p).mp hp
    exact (h.segment k).prev_next hk hnext

theorem Repr.wellFormed (h : Repr c a) : WellFormed c where
  chains cl := by
    refine ⟨a.chain cl, (h.chains.segment cl).walk, ?_, ?_⟩
    · intro p hp
      have hmem := h.chain_pc (h.live_iff.mp hp)
      split
      · next hcl =>
        rw [← hcl] at hmem
        exact List.count_eq_one_of_mem (h.chains.nodup cl) hmem
      · next hcl => exact List.count_eq_zero.mpr fun hp => hcl (h.line hp)
    · intro p hp
      have hlive := h.live_iff.mpr ⟨cl, hp⟩
      exact ⟨hlive, hlive.2⟩
  lists := by
    refine ⟨a.list .active, a.list .dormant, (h.lists.segment .active).walk,
      (h.lists.segment .dormant).walk, ?_, ?_⟩
    · intro p hp
      obtain ⟨l, hl⟩ := h.listed.mp (h.live_iff.mp hp)
      have hone := List.count_eq_one_of_mem (h.lists.nodup l) hl
      cases l with
      | active =>
        have hzero : (a.list .dormant).count p = 0 :=
          List.count_eq_zero.mpr fun hd => nomatch h.lists.disjoint hl hd
        rw [hone, hzero]
      | dormant =>
        have hzero : (a.list .active).count p = 0 :=
          List.count_eq_zero.mpr fun ha => nomatch h.lists.disjoint hl ha
        rw [hone, hzero]
    · intro p hp
      have hlist : ∃ l, p ∈ a.list l := by
        rcases List.mem_append.mp hp with hp | hp
        · exact ⟨_, hp⟩
        · exact ⟨_, hp⟩
      have hlive := h.live_iff.mpr (h.listed.mpr hlist)
      exact ⟨hlive, hlive.2⟩
  chainBack := backLinks_of_represents h.chains fun p => h.live_iff
  listBack := backLinks_of_represents h.lists fun p => h.live_iff.trans h.listed

theorem Repr.lookup_spec (h : Repr c a) (pc : Addr) :
    (∀ p, c.lookup a pc = some p → c.Live p ∧ c.pcAt p = pc) ∧
      ((c.lookup a pc).isSome ↔ ∃ p, c.Live p ∧ c.pcAt p = pc) := by
  constructor
  · intro p hp
    have hmem := List.mem_of_find?_eq_some hp
    have hpc := List.find?_some hp
    exact ⟨h.live_iff.mpr ⟨_, hmem⟩, by simpa using hpc⟩
  · rw [lookup, List.find?_isSome]
    constructor
    · rintro ⟨p, hp, hpc⟩
      exact ⟨p, h.live_iff.mpr ⟨_, hp⟩, by simpa using hpc⟩
    · rintro ⟨p, hp, rfl⟩
      exact ⟨p, h.chain_pc (h.live_iff.mp hp), by simp⟩

/-- Enough fuel for every loop over the lists. -/
theorem exists_fuel (a : CacheLists) :
    ∃ fuel, (∀ line, (a.chain line).length ≤ fuel) ∧ ∀ l, (a.list l).length ≤ fuel := by
  refine ⟨(Finset.univ.sup fun line => (a.chain line).length) +
    ((a.list .active).length + (a.list .dormant).length), ?_, ?_⟩
  · intro line
    have := Finset.le_sup (f := fun line => (a.chain line).length) (Finset.mem_univ line)
    exact le_add_right this
  · intro l
    cases l <;> omega

theorem Repr.run_isSome (h : Repr c a) (op : Op Info) : ∃ fuel, (op.run fuel c).isSome := by
  obtain ⟨fuel, hchain, hlist⟩ := exists_fuel a
  cases op with
  | add info l =>
    obtain ⟨p, c₁, free', hadd, -⟩ := h.addBlock info l
    exact ⟨0, Option.isSome_iff_exists.mpr ⟨c₁, hadd⟩⟩
  | find pc =>
    refine ⟨fuel, ?_⟩
    rw [Op.run, Option.isSome_map]
    exact (h.find pc fuel).2 (hchain _)
  | clearRange start stop => exact ⟨fuel, (h.clearRange start stop fuel).2 hchain hlist⟩
  | clear => exact ⟨fuel, (h.clear fuel).2 hlist⟩

/-- In every reachable cache the representation invariant holds, every operation ends, and `find`
answers with a live block for the pc exactly when there is one. -/
theorem reachable_wellFormed (h : Reachable c) :
    WellFormed c ∧ (∀ op : Op Info, ∃ fuel, (op.run fuel c).isSome) ∧
      ∀ pc, (∃ fuel, (c.find fuel pc).isSome) ∧
        ∀ fuel r c', c.find fuel pc = some (r, c') →
          (∀ p, r = some p → c.Live p ∧ c.pcAt p = pc) ∧
            (r.isSome ↔ ∃ p, c.Live p ∧ c.pcAt p = pc) := by
  obtain ⟨a, hrepr⟩ := h.repr
  refine ⟨hrepr.wellFormed, hrepr.run_isSome, ?_⟩
  intro pc
  refine ⟨?_, ?_⟩
  · obtain ⟨fuel, hsome⟩ := hrepr.run_isSome (.find pc)
    exact ⟨fuel, by simpa [Op.run] using hsome⟩
  · intro fuel r c' hfind
    obtain ⟨rfl, -⟩ := (hrepr.find pc fuel).1 _ hfind
    exact hrepr.lookup_spec pc

/-- A new cache with one block. -/
def sampleCache : BlockCache PowerpcBlockInfo :=
  let links {κ : Type} : Links κ Ptr := ⟨fun _ => none, fun _ => none, fun _ => none⟩
  let c := construct (fun _ => ⟨0, 0, 0, 0, 0⟩) links links fun _ => none
  (c.addBlock ⟨0x1000, 1, 0, 0x1000, 0x1000⟩ .active).getD c

theorem sampleCache_wellFormed : Reachable sampleCache ∧ WellFormed sampleCache :=
  have h : Reachable sampleCache :=
    .step 0 (.add ⟨0x1000, 1, 0, 0x1000, 0x1000⟩ .active) (.construct _ _ _ _) rfl
  ⟨h, (reachable_wellFormed h).1⟩

end BlockCache

end SheepShear.Kpx
