import SheepShear.Kpx.BlockCacheInv

/-!
# The two paths of a range flush

`clear_range` walks the whole active list, or for short ranges only the chains of
the cache lines from that of its start to that of its end. The line of a block is
that of its first instruction, so the short path misses a block that reaches into
the range from elsewhere.
-/

namespace SheepShear.Kpx

open IntrusiveList

namespace BlockCache

variable {Info : Type} [BlockInfo Info] {c c' : BlockCache Info} {a : CacheLists} {p : Ptr}
  {start stop : Addr}

/-- A block is on a list. -/
def OnList (c : BlockCache Info) (l : ListId) (p : Ptr) : Prop :=
  ∃ xs, Walk c.list.next (c.list.head l) xs ∧ p ∈ xs

/-- The path of `clear_range` over the whole active list. -/
def clearActive (fuel : Nat) (c : BlockCache Info) (start stop : Addr) : Option (BlockCache Info) :=
  c.clearRangeWalk start stop nextInList fuel (c.list.head .active)

/-- The path over some of the cache lines is taken. -/
def ShortPath (c : BlockCache Info) (start stop : Addr) : Prop :=
  c.list.head .active ≠ none ∧ cacheline start < cacheline (stop - 1)

/-- The line of a block is one of those the short path walks. -/
def LineWalked (c : BlockCache Info) (start stop : Addr) (p : Ptr) : Prop :=
  cacheline start ≤ cacheline (c.pcAt p) ∧ cacheline (c.pcAt p) ≤ cacheline (stop - 1)

/-- The blocks that an operation removes. -/
def Removes (c c' : BlockCache Info) (p : Ptr) : Prop := c.Live p ∧ ¬ c'.Live p

omit [BlockInfo Info] in
theorem onList_iff (h : Represents c.list a.list) {l : ListId} : c.OnList l p ↔ p ∈ a.list l := by
  constructor
  · rintro ⟨xs, hwalk, hp⟩
    rwa [(h.segment l).walk.unique hwalk]
  · intro hp
    exact ⟨_, (h.segment l).walk, hp⟩

theorem Repr.live_iff_onList (h : Repr c a) : c.Live p ↔ ∃ l, c.OnList l p := by
  rw [h.live_iff, h.listed]
  exact exists_congr fun l => (onList_iff h.lists).symm

theorem Repr.mem_chain_iff (h : Repr c a) {cl : Line} :
    p ∈ a.chain cl ↔ c.Live p ∧ cl = cacheline (c.pcAt p) := by
  constructor
  · intro hp
    exact ⟨h.live_iff.mpr ⟨cl, hp⟩, h.line hp⟩
  · rintro ⟨hlive, rfl⟩
    exact h.chain_pc (h.live_iff.mp hlive)

-- ---------------------------------------------------------------------------
-- What a flush removes
-- ---------------------------------------------------------------------------

variable {visited : Ptr → Prop} {gone : List Ptr}

theorem Flushed.onList_iff (hf : Flushed c c' a start stop visited gone) (h : Repr c a) {l : ListId} :
    c'.OnList l p ↔ c.OnList l p ∧
      ¬ (visited p ∧ BlockInfo.intersect (c.info p) start stop = true) := by
  rw [BlockCache.onList_iff hf.repr.lists, BlockCache.onList_iff h.lists, ← hf.mem]
  simp [CacheLists.drop]

theorem Flushed.removes_iff (hf : Flushed c c' a start stop visited gone) (h : Repr c a) :
    c.Removes c' p ↔
      c.Live p ∧ visited p ∧ BlockInfo.intersect (c.info p) start stop = true := by
  rw [Removes, hf.repr.live_iff_onList, h.live_iff_onList]
  constructor
  · rintro ⟨⟨l, hl⟩, hgone⟩
    refine ⟨⟨l, hl⟩, ?_⟩
    by_contra hkept
    exact hgone ⟨l, (hf.onList_iff h).mpr ⟨hl, hkept⟩⟩
  · rintro ⟨hlive, hhit⟩
    refine ⟨hlive, ?_⟩
    rintro ⟨l, hl⟩
    exact ((hf.onList_iff h).mp hl).2 hhit

theorem Flushed.info_of_onList (hf : Flushed c c' a start stop visited gone) {l : ListId}
    (hp : c'.OnList l p) : c'.info p = c.info p := by
  refine hf.info p ?_
  have hmem := (BlockCache.onList_iff hf.repr.lists).mp hp
  simpa using (List.mem_filter.mp hmem).2

theorem Repr.clearActive_flushed (h : Repr c a) {fuel : Nat}
    (hrun : c.clearActive fuel start stop = some c') :
    ∃ gone, Flushed c c' a start stop (c.OnList .active) gone := by
  obtain ⟨hrepr, hinfo⟩ := (h.clearActive start stop fuel).1 c' hrun
  refine ⟨_, hrepr, hinfo, ?_⟩
  intro q
  rw [mem_hit, BlockCache.onList_iff h.lists]

theorem Repr.active_ne_nil (h : Repr c a) : a.list .active ≠ [] ↔ c.list.head .active ≠ none := by
  have hhead : c.list.head .active = (a.list .active).head? := (h.lists.segment .active).head_eq
  rw [hhead, Ne, Ne, List.head?_eq_none_iff]

theorem Repr.visited_short (h : Repr c a) (hshort : c.ShortPath start stop) (hlive : c.Live p) :
    BlockCache.visited a start stop p ↔ c.LineWalked start stop p := by
  obtain ⟨hactive, hlines⟩ := hshort
  rw [BlockCache.visited, if_pos hlines]
  constructor
  · rintro ⟨-, cl, hlo, hhi, hp⟩
    obtain ⟨-, rfl⟩ := h.mem_chain_iff.mp hp
    exact ⟨hlo, hhi⟩
  · rintro ⟨hlo, hhi⟩
    exact ⟨h.active_ne_nil.mpr hactive, _, hlo, hhi, h.mem_chain_iff.mpr ⟨hlive, rfl⟩⟩

theorem Repr.visited_full (h : Repr c a) (hfull : ¬ c.ShortPath start stop) :
    BlockCache.visited a start stop p ↔ c.OnList .active p := by
  rw [BlockCache.onList_iff h.lists, BlockCache.visited]
  by_cases hactive : a.list .active = []
  · simp [hactive]
  · have hlines : ¬ cacheline start < cacheline (stop - 1) := by
      intro hlt
      exact hfull ⟨h.active_ne_nil.mp hactive, hlt⟩
    rw [if_neg hlines]
    exact and_iff_right hactive

-- ---------------------------------------------------------------------------
-- Agreement of the two paths
-- ---------------------------------------------------------------------------

/-- The short path, if it is taken, walks the lines of all active blocks that intersect the range
and of none of the dormant ones. -/
def LinesCover (c : BlockCache Info) (start stop : Addr) : Prop :=
  c.ShortPath start stop →
    (∀ p, c.OnList .active p → BlockInfo.intersect (c.info p) start stop = true →
      c.LineWalked start stop p) ∧
    ∀ p, c.OnList .dormant p → BlockInfo.intersect (c.info p) start stop = true →
      ¬ c.LineWalked start stop p

/-- `clear_range` removes what its path over the active list would, and leaves no active block that
intersects the range, exactly if the lines it walks are the right ones. -/
theorem clearRange_agrees_iff (h : Reachable c) (start stop : Addr) :
    (∃ fuel, (c.clearRange fuel start stop).isSome ∧ (c.clearActive fuel start stop).isSome) ∧
      ∀ fuel c' c'', c.clearRange fuel start stop = some c' →
        c.clearActive fuel start stop = some c'' →
          ((∀ p, c.Removes c' p ↔ c.Removes c'' p) ∧
              (∀ p, c'.OnList .active p → BlockInfo.intersect (c'.info p) start stop = false) ↔
            c.LinesCover start stop) := by
  obtain ⟨a, hrepr⟩ := h.repr
  constructor
  · obtain ⟨fuel, hchain, hlist⟩ := exists_fuel a
    exact ⟨fuel, (hrepr.clearRange start stop fuel).2 hchain hlist,
      (hrepr.clearActive start stop fuel).2 (hlist .active)⟩
  intro fuel c' c'' hrun hfull
  obtain ⟨gone, hgone⟩ := (hrepr.clearRange start stop fuel).1 c' hrun
  obtain ⟨gone', hgone'⟩ := hrepr.clearActive_flushed hfull
  have hactive : ∀ {p}, c.OnList .active p → c.Live p :=
    fun hp => hrepr.live_iff_onList.mpr ⟨.active, hp⟩
  constructor
  · rintro ⟨hsame, -⟩ hshort
    have hvisited : ∀ p, c.Live p → BlockInfo.intersect (c.info p) start stop = true →
        (c.LineWalked start stop p ↔ c.OnList .active p) := by
      intro p hlive hhit
      have := hsame p
      rw [hgone.removes_iff hrepr, hgone'.removes_iff hrepr,
        hrepr.visited_short hshort hlive] at this
      simpa [hlive, hhit] using this
    constructor
    · intro p hp hhit
      exact (hvisited p (hactive hp) hhit).mpr hp
    · intro p hp hhit hwalked
      have hlive := hrepr.live_iff_onList.mpr ⟨.dormant, hp⟩
      have hp' := (hvisited p hlive hhit).mp hwalked
      rw [BlockCache.onList_iff hrepr.lists] at hp hp'
      cases hrepr.lists.disjoint hp hp'
  · intro hcover
    have hvisited : ∀ p, c.Live p → BlockInfo.intersect (c.info p) start stop = true →
        (BlockCache.visited a start stop p ↔ c.OnList .active p) := by
      intro p hlive hhit
      by_cases hshort : c.ShortPath start stop
      · obtain ⟨hwalked, hother⟩ := hcover hshort
        rw [hrepr.visited_short hshort hlive]
        refine ⟨?_, fun hp => hwalked p hp hhit⟩
        intro hline
        obtain ⟨l, hl⟩ := hrepr.live_iff_onList.mp hlive
        cases l with
        | active => exact hl
        | dormant => exact absurd hline (hother p hl hhit)
      · exact hrepr.visited_full hshort
    constructor
    · intro p
      rw [hgone.removes_iff hrepr, hgone'.removes_iff hrepr]
      refine and_congr_right fun hlive => ?_
      exact and_congr_left fun hhit => hvisited p hlive hhit
    · intro p hp
      rw [hgone.info_of_onList hp]
      obtain ⟨hbefore, hkept⟩ := (hgone.onList_iff hrepr).mp hp
      by_contra hhit
      rw [Bool.not_eq_false] at hhit
      exact hkept ⟨(hvisited p (hactive hbefore) hhit).mpr hbefore, hhit⟩

/-- A cache with a block of five instructions, as `execute` enters it. -/
def fiveInstructions : BlockCache PowerpcBlockInfo :=
  let links {κ : Type} : Links κ Ptr := ⟨fun _ => none, fun _ => none, fun _ => none⟩
  let c := construct (fun _ => ⟨0, 0, 0, 0, 0⟩) links links fun _ => none
  (c.addBlock ⟨0x1000, 5, 0, 0x1010, 0x1000⟩ .active).getD c

theorem fiveInstructions_reachable : Reachable fiveInstructions :=
  .step 0 (.add ⟨0x1000, 5, 0, 0x1010, 0x1000⟩ .active) (.construct _ _ _ _) rfl

theorem fiveInstructions_onList {l : ListId} (h : fiveInstructions.OnList l p) : p = 25 := by
  obtain ⟨xs, hwalk, hp⟩ := h
  cases l with
  | active =>
    have hactive : Walk fiveInstructions.list.next (fiveInstructions.list.head .active) [25] :=
      .cons .nil
    rw [hwalk.unique hactive] at hp
    exact List.mem_singleton.mp hp
  | dormant =>
    have hdormant : Walk fiveInstructions.list.next (fiveInstructions.list.head .dormant) [] := .nil
    rw [hwalk.unique hdormant] at hp
    cases hp

theorem fiveInstructions_active : fiveInstructions.OnList .active 25 :=
  ⟨[25], .cons .nil, List.mem_singleton_self 25⟩

/-- A flush of the whole block. -/
theorem fiveInstructions_flushed :
    ∃ fuel c', fiveInstructions.clearRange fuel 0x1000 0x1014 = some c' ∧
      ∀ p, c'.OnList .active p → BlockInfo.intersect (c'.info p) 0x1000 0x1014 = false := by
  obtain ⟨⟨fuel, hsome, hsome'⟩, hagree⟩ :=
    clearRange_agrees_iff fiveInstructions_reachable 0x1000 0x1014
  obtain ⟨c', hrun⟩ := Option.isSome_iff_exists.mp hsome
  obtain ⟨c'', hfull⟩ := Option.isSome_iff_exists.mp hsome'
  refine ⟨fuel, c', hrun, ((hagree fuel c' c'' hrun hfull).mpr ?_).2⟩
  intro _
  constructor
  · intro p hp _
    rw [fiveInstructions_onList hp]
    exact ⟨by decide, by decide⟩
  · rintro p ⟨xs, hwalk, hp⟩
    cases hwalk
    cases hp

/-- A flush of its last two instructions leaves the block. -/
theorem fiveInstructions_stays :
    ∃ c', Reachable fiveInstructions ∧
      fiveInstructions.clearRange 1 0x100c 0x1014 = some c' ∧ c'.OnList .active 25 ∧
        BlockInfo.intersect (c'.info 25) 0x100c 0x1014 = true :=
  ⟨fiveInstructions, fiveInstructions_reachable, by rfl, fiveInstructions_active, by decide⟩

end BlockCache

end SheepShear.Kpx
