import Mathlib.Data.Set.Pairwise.Basic
import SheepShear.Kpx.DecodeCache
import SheepShear.Kpx.FlushRange

/-!
# The entries of predecoded blocks

The predecode loop looks at the room left in the decode cache after each
instruction, when its entries are written. The blocks in the block cache never
share entries. The writes stay in the decode cache exactly if there is room for
the first instruction of each block, and for the whole block in an empty cache.
-/

namespace SheepShear.Kpx

open IntrusiveList

-- ---------------------------------------------------------------------------
-- Blocks and their entries
-- ---------------------------------------------------------------------------

def PowerpcBlockInfo.entries (bi : PowerpcBlockInfo) : Set Nat := Set.Ico bi.di (bi.di + bi.size)

namespace BlockCache

variable {Info : Type} [BlockInfo Info] {c : BlockCache Info} {a : CacheLists} {p : Ptr}

/-- A block can be reached through a chain or through a list of the cache. -/
def Cached (c : BlockCache Info) (p : Ptr) : Prop :=
  (∃ cl chain, Walk c.sameCl.next (c.sameCl.head cl) chain ∧ p ∈ chain) ∨ ∃ l, c.OnList l p

theorem Repr.cached_iff (h : Repr c a) : c.Cached p ↔ ∃ cl, p ∈ a.chain cl := by
  constructor
  · rintro (⟨cl, chain, hwalk, hp⟩ | ⟨l, hl⟩)
    · rw [hwalk.unique (h.chains.segment cl).walk] at hp
      exact ⟨cl, hp⟩
    · exact h.listed.mpr ⟨l, (onList_iff h.lists).mp hl⟩
  · rintro ⟨cl, hp⟩
    exact Or.inl ⟨cl, _, (h.chains.segment cl).walk, hp⟩

/-- The blocks in the chains lie below `bound` and share no entries. -/
structure Packed (c : BlockCache PowerpcBlockInfo) (a : CacheLists) (bound : Nat) : Prop where
  below : ∀ {p cl}, p ∈ a.chain cl → (c.info p).di + (c.info p).size ≤ bound
  disjoint : ({p | ∃ cl, p ∈ a.chain cl} : Set Ptr).PairwiseDisjoint fun p => (c.info p).entries

variable {c c' : BlockCache PowerpcBlockInfo} {a a' : CacheLists} {bound : Nat}

/-- Fewer blocks, all as they were. -/
theorem Packed.mono (h : Packed c a bound)
    (hmem : ∀ {p cl}, p ∈ a'.chain cl → (∃ cl, p ∈ a.chain cl) ∧ c'.info p = c.info p) :
    Packed c' a' bound where
  below hp := by
    obtain ⟨⟨cl, hold⟩, hinfo⟩ := hmem hp
    rw [hinfo]
    exact h.below hold
  disjoint := by
    rintro p ⟨cl, hp⟩ q ⟨cl', hq⟩ hne
    obtain ⟨hp, hpinfo⟩ := hmem hp
    obtain ⟨hq, hqinfo⟩ := hmem hq
    change Disjoint (c'.info p).entries (c'.info q).entries
    rw [hpinfo, hqinfo]
    exact h.disjoint hp hq hne

theorem Packed.cleared (c : BlockCache PowerpcBlockInfo) (a : CacheLists) (bound : Nat) :
    Packed c a.cleared bound where
  below := nofun
  disjoint := by
    rintro p ⟨cl, hp⟩
    cases hp

/-- A block whose entries begin at the bound. -/
theorem Packed.enlist (h : Packed c a bound) (hp : ∀ cl, p ∉ a.chain cl) (info : PowerpcBlockInfo)
    (hdi : info.di = bound) (hinfo : c'.info = Function.update c.info p info)
    (hmem : ∀ {q cl}, q ∈ a'.chain cl → q = p ∨ ∃ cl, q ∈ a.chain cl) :
    Packed c' a' (bound + info.size) := by
  have hself : c'.info p = info := by rw [hinfo, Function.update_self]
  have hother {q : Ptr} (hq : ∃ cl, q ∈ a.chain cl) : c'.info q = c.info q := by
    rw [hinfo, Function.update_of_ne]
    rintro rfl
    exact hp _ hq.choose_spec
  have happart {q : Ptr} (hq : ∃ cl, q ∈ a.chain cl) :
      Disjoint (c'.info q).entries (c'.info p).entries := by
    have hbelow := h.below hq.choose_spec
    rw [hself, hother hq, Set.disjoint_left]
    intro i hi hi'
    have := hi.2
    have := hi'.1
    omega
  constructor
  · intro q cl hq
    rcases hmem hq with rfl | hq
    · rw [hself, hdi]
    · have hbelow := h.below hq.choose_spec
      rw [hother hq]
      omega
  · rintro q ⟨cl, hq⟩ r ⟨cl', hr⟩ hne
    change Disjoint (c'.info q).entries (c'.info r).entries
    rcases hmem hq with rfl | hq <;> rcases hmem hr with rfl | hr
    · exact absurd rfl hne
    · exact (happart hr).symm
    · exact happart hq
    · rw [hother hq, hother hr]
      exact h.disjoint hq hr hne

end BlockCache

-- ---------------------------------------------------------------------------
-- One turn of the loop
-- ---------------------------------------------------------------------------

open DecodeCache

/-- The entries that the loop writes for one instruction. -/
def CpuBuild.entriesPerInstr (b : CpuBuild) (logging : Bool) : Nat :=
  1 + (if b.dumpState then 2 else 0) + if logging then 1 else 0

theorem CpuBuild.entriesPerInstr_pos (b : CpuBuild) (logging : Bool) :
    0 < b.entriesPerInstr logging := by
  rw [entriesPerInstr]
  omega

/-- Whole instructions that end below the mark have room for one more. -/
theorem CpuBuild.room (b : CpuBuild) (logging : Bool) {di : Nat}
    (hdvd : b.entriesPerInstr logging ∣ di) (hdi : di < decodeCacheEndP b) :
    di + b.entriesPerInstr logging ≤ decodeCacheMaxEntries := by
  obtain ⟨n, rfl⟩ := hdvd
  obtain ⟨dumpState, decoder⟩ := b
  cases dumpState <;> cases logging <;>
    simp only [entriesPerInstr, decodeCacheEndP, decodeCacheMaxEntries, reduceIte,
      Bool.false_eq_true] at hdi ⊢ <;> omega

namespace Predecode

variable {b : CpuBuild} {mem : Word → Word} {pc : Word} {fuel : Nat} {s s' : Predecode}

theorem putInstr_spec (b : CpuBuild) (s : Predecode) (opcode : Word) (ii : InstrInfo) :
    ∃ entries, s.putInstr b opcode ii = { s with
      cpu := { s.cpu with decodeCache := entries }
      di := s.di + b.entriesPerInstr s.cpu.logging
      written := s.written ++ List.range' s.di (b.entriesPerInstr s.cpu.logging) } := by
  refine ⟨(s.putInstr b opcode ii).cpu.decodeCache, ?_⟩
  obtain ⟨dumpState, decoder⟩ := b
  cases dumpState <;> cases hlog : s.cpu.logging <;>
    simp [putInstr, put, CpuBuild.entriesPerInstr, hlog, List.range'_succ]

/-- What a turn does to everything but the entries: it writes those of one instruction, and then
there is room left, or the cache is cleared and the block moved to the start. -/
theorem turn_cases (h : s.turn b mem fuel = some s') :
    s'.bi = s.bi ∧ s'.dpc = s.dpc + 4 ∧ s'.cpu.logging = s.cpu.logging ∧
      s'.ended = (b.decoder.decode (mem (s.dpc + 4))).endsBlock ∧
      ((s.di + b.entriesPerInstr s.cpu.logging < decodeCacheEndP b ∧
          s'.cpu.myBlockCache = s.cpu.myBlockCache ∧ s'.cpu.decodeCacheP = s.cpu.decodeCacheP ∧
          s'.biDi = s.biDi ∧ s'.di = s.di + b.entriesPerInstr s.cpu.logging ∧
          s'.written = s.written ++ List.range' s.di (b.entriesPerInstr s.cpu.logging)) ∨
        (decodeCacheEndP b ≤ s.di + b.entriesPerInstr s.cpu.logging ∧
          (s.cpu.myBlockCache.clear fuel).map BlockCache.initializeTags =
            some s'.cpu.myBlockCache ∧
          s'.cpu.decodeCacheP = 0 ∧ s'.biDi = 0 ∧
          s'.di = s.di + b.entriesPerInstr s.cpu.logging - s.biDi ∧
          s'.written = s.written ++ List.range' s.di (b.entriesPerInstr s.cpu.logging) ++
            List.range' 0 (s.di + b.entriesPerInstr s.cpu.logging - s.biDi))) := by
  obtain ⟨entries, hput⟩ := putInstr_spec b
    { s with
      dpc := s.dpc + 4
      ended := (b.decoder.decode (mem (s.dpc + 4))).endsBlock }
    (mem (s.dpc + 4)) (b.decoder.decode (mem (s.dpc + 4)))
  simp only [turn, hput] at h
  split at h
  next hroom =>
    obtain ⟨cpu, hcpu, h⟩ := Option.bind_eq_some_iff.mp h
    obtain ⟨blocks, hblocks, hcpu⟩ := Option.bind_eq_some_iff.mp hcpu
    obtain rfl := Option.some.inj hcpu
    obtain rfl := Option.some.inj h
    refine ⟨rfl, rfl, rfl, rfl, Or.inr ⟨hroom, ?_, rfl, rfl, ?_, rfl⟩⟩
    · rw [hblocks]
      rfl
    · exact Nat.zero_add _
  next hroom =>
    obtain rfl := Option.some.inj h
    exact ⟨rfl, rfl, rfl, rfl, Or.inl ⟨Nat.lt_of_not_le hroom, rfl, rfl, rfl, rfl, rfl⟩⟩

theorem turn_isSome (h : ((s.cpu.myBlockCache.clear fuel).map BlockCache.initializeTags).isSome) :
    (s.turn b mem fuel).isSome := by
  obtain ⟨entries, hput⟩ := putInstr_spec b
    { s with
      dpc := s.dpc + 4
      ended := (b.decoder.decode (mem (s.dpc + 4))).endsBlock }
    (mem (s.dpc + 4)) (b.decoder.decode (mem (s.dpc + 4)))
  rw [Option.isSome_map] at h
  obtain ⟨blocks, hblocks⟩ := Option.isSome_iff_exists.mp h
  simp only [turn, hput]
  split
  · simp [moveToStart, DecodeCache.invalidateCache, hblocks]
  · rfl

end Predecode

-- ---------------------------------------------------------------------------
-- The loop
-- ---------------------------------------------------------------------------

def instrAddr (pc : Word) (j : Nat) : Word := pc + BitVec.ofNat 32 (4 * j)

theorem instrAddr_succ (pc : Word) (j : Nat) : instrAddr pc (j + 1) = instrAddr pc j + 4 := by
  rw [instrAddr, instrAddr, Nat.mul_succ, BitVec.ofNat_add, BitVec.add_assoc]
  rfl

/-- The instruction of the guest code at this place from `pc` on ends a block. -/
def EndsAt (b : CpuBuild) (mem : Word → Word) (pc : Word) (j : Nat) : Prop :=
  (b.decoder.decode (mem (instrAddr pc j))).endsBlock = true

/-- So many instructions from `pc` on form a block. -/
def BlockLength (b : CpuBuild) (mem : Word → Word) (pc : Word) (n : Nat) : Prop :=
  ∃ j, n = j + 1 ∧ EndsAt b mem pc j ∧ ∀ i < j, ¬EndsAt b mem pc i

namespace Predecode

/-- The state of the loop after `n` instructions, begun in the state `c` whose lists are `a`. -/
structure After (b : CpuBuild) (mem : Word → Word) (pc : Word) (c : DecodeCache) (a : CacheLists)
    (n : Nat) (s : Predecode) : Prop where
  lists : ∃ a', s.cpu.myBlockCache.Held a' s.bi ∧ s.cpu.myBlockCache.Packed a' s.biDi ∧
    ∀ l, (a'.list l).length ≤ (a.list l).length
  decodeCacheP : s.cpu.decodeCacheP = s.biDi
  logging : s.cpu.logging = c.logging
  aligned : b.entriesPerInstr c.logging ∣ s.biDi
  di : s.di = s.biDi + n * b.entriesPerInstr c.logging
  dpc : s.dpc + 4 = instrAddr pc n
  ended : s.ended = true ↔ ∃ j, n = j + 1 ∧ EndsAt b mem pc j
  running : ∀ j, j + 1 < n → ¬EndsAt b mem pc j
  begun : n = 0 → s.biDi = c.decodeCacheP
  placed : 0 < n → s.biDi = 0 ∨ s.di < decodeCacheEndP b
  first : 0 < n → ∀ i, c.decodeCacheP ≤ i → i < c.decodeCacheP + b.entriesPerInstr c.logging →
    i ∈ s.written
  kept : ∀ i, s.biDi ≤ i → i < s.di → i ∈ s.written
  inBounds : c.decodeCacheP + b.entriesPerInstr c.logging ≤ decodeCacheMaxEntries →
    n * b.entriesPerInstr c.logging ≤ decodeCacheMaxEntries →
      ∀ i ∈ s.written, i < decodeCacheMaxEntries

variable {b : CpuBuild} {mem : Word → Word} {pc : Word} {c : DecodeCache} {a : CacheLists}
  {n m fuel : Nat} {s s' : Predecode}

/-- The entries of the next instruction end in the decode cache. -/
theorem After.next_le (h : After b mem pc c a n s)
    (hfirst : c.decodeCacheP + b.entriesPerInstr c.logging ≤ decodeCacheMaxEntries)
    (hfits : (n + 1) * b.entriesPerInstr c.logging ≤ decodeCacheMaxEntries) :
    s.di + b.entriesPerInstr c.logging ≤ decodeCacheMaxEntries := by
  have hdi := h.di
  rcases Nat.eq_zero_or_pos n with rfl | hn
  · rw [hdi, h.begun rfl, Nat.zero_mul]
    exact hfirst
  rcases h.placed hn with hzero | hroom
  · rw [hdi, hzero, Nat.zero_add, ← Nat.succ_mul]
    exact hfits
  · refine b.room c.logging ?_ hroom
    rw [hdi]
    exact Nat.dvd_add h.aligned (Nat.dvd_mul_left ..)

theorem After.turn (h : After b mem pc c a n s) (hrun : s.ended = false)
    (ht : s.turn b mem fuel = some s') : After b mem pc c a (n + 1) s' := by
  obtain ⟨hbi, hdpc, hlog, hended, hcases⟩ := turn_cases ht
  rw [h.logging] at hlog hcases
  have hdi := h.di
  have hmul : (n + 1) * b.entriesPerInstr c.logging =
      n * b.entriesPerInstr c.logging + b.entriesPerInstr c.logging := Nat.succ_mul ..
  have hdpc' : s'.dpc + 4 = instrAddr pc (n + 1) := by
    rw [hdpc, h.dpc, instrAddr_succ]
  have hended' : s'.ended = true ↔ ∃ j, n + 1 = j + 1 ∧ EndsAt b mem pc j := by
    rw [hended, h.dpc]
    simp [EndsAt]
  have hrunning : ∀ j, j + 1 < n + 1 → ¬EndsAt b mem pc j := by
    intro j hj hend
    rcases Nat.lt_succ_iff_lt_or_eq.mp hj with hj | rfl
    · exact h.running j hj hend
    · rw [h.ended.mpr ⟨j, rfl, hend⟩] at hrun
      cases hrun
  have hfirst' : ∀ i, c.decodeCacheP ≤ i → i < c.decodeCacheP + b.entriesPerInstr c.logging →
      i ∈ s.written ++ List.range' s.di (b.entriesPerInstr c.logging) := by
    intro i hlo hhi
    rw [List.mem_append, List.mem_range'_1]
    rcases Nat.eq_zero_or_pos n with rfl | hn
    · have := h.begun rfl
      exact Or.inr ⟨by omega, by omega⟩
    · exact Or.inl (h.first hn i hlo hhi)
  have hold (hfirst : c.decodeCacheP + b.entriesPerInstr c.logging ≤ decodeCacheMaxEntries)
      (hfits : (n + 1) * b.entriesPerInstr c.logging ≤ decodeCacheMaxEntries) :
      ∀ i ∈ s.written ++ List.range' s.di (b.entriesPerInstr c.logging),
        i < decodeCacheMaxEntries := by
    intro i hi
    rcases List.mem_append.mp hi with hi | hi
    · exact h.inBounds hfirst (by omega) i hi
    · have := h.next_le hfirst hfits
      have := (List.mem_range'_1.mp hi).2
      omega
  obtain ⟨a', hheld, hpacked, hlen⟩ := h.lists
  obtain ⟨hroom, hblocks, hp, hbiDi, hdi', hwritten⟩ | ⟨-, hblocks, hp, hbiDi, hdi', hwritten⟩ :=
    hcases
  · refine ⟨⟨a', ?_, ?_, hlen⟩, ?_, hlog, ?_, by omega, hdpc', hended', hrunning,
      fun hn => absurd hn (Nat.succ_ne_zero n), fun _ => Or.inr (by omega), ?_, ?_, ?_⟩
    · rwa [hblocks, hbi]
    · rwa [hblocks, hbiDi]
    · rw [hp, hbiDi, h.decodeCacheP]
    · rw [hbiDi]
      exact h.aligned
    · rw [hwritten]
      exact fun _ => hfirst'
    · intro i hlo hhi
      rw [hwritten, List.mem_append, List.mem_range'_1]
      rw [hbiDi] at hlo
      rcases Nat.lt_or_ge i s.di with hlt | hge
      · exact Or.inl (h.kept i hlo hlt)
      · exact Or.inr ⟨hge, by omega⟩
    · rw [hwritten]
      exact hold
  · have hlist : ∀ l, (a'.cleared.list l).length ≤ (a.list l).length := fun _ => Nat.zero_le _
    refine ⟨⟨a'.cleared, ?_, ?_, hlist⟩, ?_, hlog, ?_, by omega, hdpc', hended', hrunning,
      fun hn => absurd hn (Nat.succ_ne_zero n), fun _ => Or.inl hbiDi, ?_, ?_, ?_⟩
    · rw [hbi]
      exact (hheld.clear fuel).1 _ hblocks
    · exact BlockCache.Packed.cleared ..
    · rw [hp, hbiDi]
    · rw [hbiDi]
      exact Nat.dvd_zero _
    · intro _ i hlo hhi
      rw [hwritten, List.mem_append]
      exact Or.inl (hfirst' i hlo hhi)
    · intro i _ hhi
      rw [hwritten, List.mem_append, List.mem_range'_1]
      exact Or.inr ⟨Nat.zero_le i, by omega⟩
    · intro hfirst hfits i hi
      rw [hwritten, List.mem_append] at hi
      rcases hi with hi | hi
      · exact hold hfirst hfits i hi
      · have := (List.mem_range'_1.mp hi).2
        omega

theorem After.turns (h : After b mem pc c a n s) (ht : s.turns b mem fuel m = some s') :
    ∃ n', After b mem pc c a n' s' ∧ (s'.ended = true ∨ n' = n + m) := by
  induction m generalizing n s with
  | zero =>
    obtain rfl := Option.some.inj ht
    exact ⟨n, h, Or.inr rfl⟩
  | succ m ih =>
    rw [Predecode.turns] at ht
    split at ht
    next hended =>
      obtain rfl := Option.some.inj ht
      exact ⟨n, h, Or.inl hended⟩
    next hrun =>
      obtain ⟨s₁, hturn, ht⟩ := Option.bind_eq_some_iff.mp ht
      obtain ⟨n', hafter, hn⟩ := ih (h.turn (Bool.eq_false_iff.mpr hrun) hturn) ht
      exact ⟨n', hafter, hn.imp_right fun hn => by omega⟩

/-- With fuel for the lists there were, the loop makes any number of turns. -/
theorem After.turns_isSome (h : After b mem pc c a n s) (hfuel : ∀ l, (a.list l).length ≤ fuel)
    (m : Nat) : (s.turns b mem fuel m).isSome := by
  induction m generalizing n s with
  | zero => rfl
  | succ m ih =>
    rw [Predecode.turns]
    split
    next => rfl
    next hrun =>
      obtain ⟨a', hheld, -, hlen⟩ := h.lists
      have hclear := (hheld.clear fuel).2 fun l => (hlen l).trans (hfuel l)
      have hturns : (s.turn b mem fuel).isSome := turn_isSome hclear
      obtain ⟨s₁, hturn⟩ := Option.isSome_iff_exists.mp hturns
      rw [hturn]
      exact ih (h.turn (Bool.eq_false_iff.mpr hrun) hturn)

theorem After.blockLength (h : After b mem pc c a n s) (hended : s.ended = true) :
    BlockLength b mem pc n := by
  obtain ⟨j, rfl, hend⟩ := h.ended.mp hended
  exact ⟨j, rfl, hend, fun i hi => h.running i (Nat.succ_lt_succ hi)⟩

end Predecode

-- ---------------------------------------------------------------------------
-- Runs
-- ---------------------------------------------------------------------------

theorem CacheLists.mem_raise {a : CacheLists} {cl cl' : Line} {p q : Ptr}
    (h : q ∈ (a.raise cl p).chain cl') : q = p ∨ q ∈ a.chain cl' := by
  by_cases hcl : cl' = cl
  · subst hcl
    simp only [CacheLists.raise, Function.update_self] at h
    rcases List.mem_cons.mp h with rfl | h
    · exact Or.inl rfl
    · exact Or.inr (List.mem_of_mem_filter h)
  · simp only [CacheLists.raise, Function.update_of_ne hcl] at h
    exact Or.inr h

namespace DecodeCache

variable {b : CpuBuild} {mem : Word → Word} {entry pc : Word} {c c' : DecodeCache}
  {a : CacheLists} {n fuel : Nat} {s : Predecode} {op : Op}

/-- The blocks fill the decode cache up to `decode_cache_p`, in whole instructions of the kind that
the loop writes now. -/
structure Arena (b : CpuBuild) (c : DecodeCache) (a : CacheLists) : Prop where
  repr : c.myBlockCache.Repr a
  packed : c.myBlockCache.Packed a c.decodeCacheP
  aligned : b.entriesPerInstr c.logging ∣ c.decodeCacheP

theorem Arena.start (h : Arena b c a) (mem : Word → Word) (pc : Word) :
    ∃ s, Predecode.start c pc = some s ∧ Predecode.After b mem pc c a 0 s := by
  obtain ⟨p, blocks, free', hnew, hheld, hinfo⟩ := h.repr.newBlockinfo
  refine ⟨_, by rw [Predecode.start, hnew]; rfl, ?_⟩
  refine ⟨⟨_, hheld, h.packed.mono ?_, fun _ => Nat.le_refl _⟩, rfl, rfl, h.aligned, ?_, ?_,
    by simp, fun j hj => by omega, fun _ => rfl, fun hn => absurd hn (Nat.lt_irrefl 0),
    fun hn => absurd hn (Nat.lt_irrefl 0), ?_, fun _ _ _ hi => nomatch hi⟩
  · intro q cl hq
    exact ⟨⟨cl, hq⟩, congrFun hinfo q⟩
  · rw [Nat.zero_mul]
    rfl
  · simp [instrAddr]
  · intro i hlo hhi
    exact absurd hhi (Nat.not_lt.mpr hlo)

theorem Arena.finish (h : Predecode.After b mem pc c a n s) (entry : Word) :
    ∃ a', Arena b (s.finish entry pc) a' := by
  obtain ⟨a', hheld, hpacked, -⟩ := h.lists
  refine ⟨_, hheld.enlist _ .active, ?_, ?_⟩
  · change BlockCache.Packed _ _ (s.cpu.decodeCacheP + (s.di - s.biDi))
    rw [h.decodeCacheP]
    refine hpacked.enlist hheld.heldChain ⟨_, s.di - s.biDi, s.biDi, _, _⟩ rfl rfl ?_
    intro q cl hq
    rcases BlockCache.mem_update_cons.mp hq with ⟨rfl, -⟩ | hq
    · exact Or.inl rfl
    · exact Or.inr ⟨cl, hq⟩
  · change b.entriesPerInstr s.cpu.logging ∣ s.cpu.decodeCacheP + (s.di - s.biDi)
    rw [h.logging, h.decodeCacheP, h.di, Nat.add_sub_cancel_left]
    exact Nat.dvd_add h.aligned (Nat.dvd_mul_left ..)

theorem Arena.invalidateCache (h : c.myBlockCache.Repr a)
    (hrun : c.invalidateCache fuel = some c') : Arena b c' a.cleared := by
  obtain ⟨blocks, hblocks, hrun⟩ := Option.bind_eq_some_iff.mp hrun
  obtain rfl := Option.some.inj hrun
  refine ⟨(h.clear fuel).1 _ ?_, BlockCache.Packed.cleared .., Nat.dvd_zero _⟩
  rw [hblocks]
  rfl

theorem Arena.find (h : Arena b c a) {addr : Addr} (hrun : (Op.find addr).run b fuel c = some c') :
    ∃ a', Arena b c' a' := by
  obtain ⟨⟨bi, blocks⟩, hfind, hrun⟩ := Option.bind_eq_some_iff.mp hrun
  obtain rfl := Option.some.inj hrun
  obtain ⟨hfound, hinfo, a', hrepr, ha'⟩ := (h.repr.find addr fuel).1 _ hfind
  refine ⟨a', hrepr, h.packed.mono ?_, h.aligned⟩
  intro q cl hq
  refine ⟨?_, congrFun hinfo q⟩
  rcases ha' with rfl | ⟨p, hp, rfl⟩
  · exact ⟨cl, hq⟩
  · rcases CacheLists.mem_raise hq with rfl | hq
    · rw [hfound] at hp
      exact ⟨_, List.mem_of_find?_eq_some hp⟩
    · exact ⟨cl, hq⟩

theorem Arena.invalidateCacheRange (h : Arena b c a) {start stop : Addr}
    (hrun : c.invalidateCacheRange fuel start stop = some c') : ∃ a', Arena b c' a' := by
  obtain ⟨blocks, hblocks, hrun⟩ := Option.bind_eq_some_iff.mp hrun
  obtain rfl := Option.some.inj hrun
  obtain ⟨gone, hgone⟩ := (h.repr.clearRange start stop fuel).1 _ hblocks
  refine ⟨_, hgone.repr, h.packed.mono ?_, h.aligned⟩
  intro q cl hq
  obtain ⟨hq, hkept⟩ := List.mem_filter.mp hq
  exact ⟨⟨cl, hq⟩, hgone.info q (by simpa using hkept)⟩

/-- Each operation keeps the blocks packed. -/
theorem Arena.run (h : Arena b c a) (hrun : op.run b fuel c = some c') : ∃ a', Arena b c' a' := by
  cases op with
  | predecode mem entry pc =>
    obtain ⟨s, hstart, hafter⟩ := h.start mem pc
    obtain ⟨s₀, hs₀, hrun⟩ := Option.bind_eq_some_iff.mp hrun
    obtain rfl := Option.some.inj (hstart.symm.trans hs₀)
    obtain ⟨s', hturns, hrun⟩ := Option.bind_eq_some_iff.mp hrun
    obtain ⟨n, hafter', -⟩ := hafter.turns hturns
    split at hrun
    · obtain rfl := Option.some.inj hrun
      exact Arena.finish hafter' entry
    · cases hrun
  | find addr => exact h.find hrun
  | invalidateCache => exact ⟨_, Arena.invalidateCache h.repr hrun⟩
  | invalidateCacheRange start stop => exact h.invalidateCacheRange hrun
  | startLog => exact ⟨_, Arena.invalidateCache (c := { c with logging := true }) h.repr hrun⟩
  | stopLog => exact ⟨_, Arena.invalidateCache (c := { c with logging := false }) h.repr hrun⟩

theorem Run.arena {steps : List (DecodeCache × Op)} (h : Run b steps c) : ∃ a, Arena b c a := by
  induction h with
  | init decodeCache info sameCl list next logging =>
    refine ⟨_, BlockCache.construct_repr info sameCl list next, ⟨nofun, ?_⟩, Nat.dvd_zero _⟩
    rintro p ⟨cl, hp⟩
    cases hp
  | step fuel op _ hrun ih =>
    obtain ⟨a, ha⟩ := ih
    exact ha.run hrun

-- ---------------------------------------------------------------------------
-- Writes
-- ---------------------------------------------------------------------------

def Op.InBounds (b : CpuBuild) (c : DecodeCache) (op : Op) : Prop :=
  ∀ i, op.Writes b c i → i < decodeCacheMaxEntries

/-- The blocks in the block cache share no entries. -/
def BlocksApart (c : DecodeCache) : Prop :=
  ({p | c.myBlockCache.Cached p} : Set Ptr).PairwiseDisjoint fun p =>
    (c.myBlockCache.info p).entries

/-- For a predecode, the entries after the last block have room for an instruction, and the guest
code from `pc` on reaches the end of a block before it fills more than the whole decode cache. -/
def Op.Fits (b : CpuBuild) (c : DecodeCache) : Op → Prop
  | .predecode mem _ pc =>
    c.decodeCacheP + b.entriesPerInstr c.logging ≤ decodeCacheMaxEntries ∧
      ∃ n, BlockLength b mem pc n ∧ n * b.entriesPerInstr c.logging ≤ decodeCacheMaxEntries
  | _ => True

theorem Arena.blocksApart (h : Arena b c a) : c.BlocksApart := by
  have hcached : {p | c.myBlockCache.Cached p} = {p | ∃ cl, p ∈ a.chain cl} :=
    Set.ext fun _ => h.repr.cached_iff
  rw [BlocksApart, hcached]
  exact h.packed.disjoint

theorem Arena.inBounds (h : Arena b c a) (hfits : op.Fits b c) : op.InBounds b c := by
  rintro i hi
  cases op with
  | predecode mem entry pc =>
    obtain ⟨fuel, m, s, s', hstart, hturns, hi⟩ := hi
    obtain ⟨hfirst, _, ⟨j, rfl, hend, -⟩, hlen⟩ := hfits
    obtain ⟨s₀, hs₀, hafter⟩ := h.start mem pc
    obtain rfl := Option.some.inj (hs₀.symm.trans hstart)
    obtain ⟨n, hafter, -⟩ := hafter.turns hturns
    -- the loop does not go on after the end of the block
    have hn : n ≤ j + 1 := by
      by_contra hlt
      exact hafter.running j (Nat.lt_of_not_le hlt) hend
    exact hafter.inBounds hfirst ((Nat.mul_le_mul_right _ hn).trans hlen) i hi
  | _ => cases hi

theorem Arena.fits (h : Arena b c a) (hin : op.InBounds b c) : op.Fits b c := by
  cases op with
  | predecode mem entry pc =>
    obtain ⟨s, hstart, hafter⟩ := h.start mem pc
    obtain ⟨fuel, hchain, hfuel⟩ := BlockCache.exists_fuel a
    have hturns (m : Nat) : ∃ n s', Predecode.After b mem pc c a n s' ∧
        (∀ i ∈ s'.written, i < decodeCacheMaxEntries) ∧ (s'.ended = true ∨ n = m) := by
      obtain ⟨s', hs'⟩ := Option.isSome_iff_exists.mp (hafter.turns_isSome hfuel m)
      obtain ⟨n, hafter', hn⟩ := hafter.turns hs'
      refine ⟨n, s', hafter', fun i hi => hin i ⟨fuel, m, s, s', hstart, hs', hi⟩, ?_⟩
      exact hn.imp_right fun hn => by omega
    have hpos := b.entriesPerInstr_pos c.logging
    constructor
    · obtain ⟨n, s', hafter', hwritten, hn⟩ := hturns 1
      have hn : 0 < n := by
        rcases hn with hended | rfl
        · obtain ⟨j, rfl, -⟩ := hafter'.blockLength hended
          exact Nat.succ_pos j
        · exact Nat.one_pos
      have hlast := hwritten (c.decodeCacheP + (b.entriesPerInstr c.logging - 1))
        (hafter'.first hn _ (Nat.le_add_right ..) (by omega))
      omega
    · -- the whole block has been written at its place, so as many turns as entries end it
      obtain ⟨n, s', hafter', hwritten, hn⟩ := hturns (decodeCacheMaxEntries + 1)
      have hdi := hafter'.di
      have hle : n * b.entriesPerInstr c.logging ≤ decodeCacheMaxEntries := by
        by_contra hgt
        have hlast := hwritten (s'.di - 1) (hafter'.kept _ (by omega) (by omega))
        omega
      have hn' : n ≤ n * b.entriesPerInstr c.logging := Nat.le_mul_of_pos_right n hpos
      rcases hn with hended | rfl
      · exact ⟨n, hafter'.blockLength hended, hle⟩
      · omega
  | _ => trivial

/-- In every run the predecodes write entries of the decode cache only, and the blocks in the cache
share none, exactly if each block fits. -/
theorem Run.safe_iff {steps : List (DecodeCache × Op)} (h : Run b steps c) (op : Op) :
    (∀ step ∈ steps ++ [(c, op)], step.2.InBounds b step.1 ∧ step.1.BlocksApart) ↔
      ∀ step ∈ steps ++ [(c, op)], step.2.Fits b step.1 := by
  have harena : ∀ step ∈ steps ++ [(c, op)], ∃ a, Arena b step.1 a := by
    induction h generalizing op with
    | init decodeCache info sameCl list next logging =>
      rintro step hstep
      obtain rfl := List.mem_singleton.mp hstep
      exact (Run.init decodeCache info sameCl list next logging).arena
    | step fuel last hrun hstep ih =>
      rintro step hmem
      rcases List.mem_append.mp hmem with hmem | hmem
      · exact ih last step hmem
      · obtain rfl := List.mem_singleton.mp hmem
        exact (hrun.step fuel last hstep).arena
  constructor
  · intro hsafe step hstep
    obtain ⟨a, ha⟩ := harena step hstep
    exact ha.fits (hsafe step hstep).1
  · intro hfits step hstep
    obtain ⟨a, ha⟩ := harena step hstep
    exact ⟨ha.inBounds (hfits step hstep), ha.blocksApart⟩

/-- The processor of the emulator. -/
def sheepBuild : CpuBuild := ⟨false, initDecoder⟩

def emptyDecodeCache : DecodeCache :=
  let links {κ : Type} : Links κ Ptr := ⟨fun _ => none, fun _ => none, fun _ => none⟩
  init (fun _ => ⟨.fakeDumpRegisters, 0⟩)
    (BlockCache.construct (fun _ => ⟨0, 0, 0, 0, 0⟩) links links fun _ => none) false

theorem emptyDecodeCache_run : Run sheepBuild [] emptyDecodeCache := .init _ _ _ _ _ _

/-- The predecode of a single `blr`. -/
theorem blr_safe :
    (Op.predecode (fun _ => 0x4e800020) 0x10000 0x10000).InBounds sheepBuild emptyDecodeCache ∧
      emptyDecodeCache.BlocksApart := by
  have hblr : EndsAt sheepBuild (fun _ => 0x4e800020) 0x10000 0 := by
    rw [EndsAt, sheepBuild, initDecoder_decode]
    decide +kernel
  have hfits : (Op.predecode (fun _ => 0x4e800020) 0x10000 0x10000).Fits sheepBuild
      emptyDecodeCache :=
    ⟨by decide, 1, ⟨0, rfl, hblr, nofun⟩, by decide⟩
  refine (Run.safe_iff emptyDecodeCache_run _).mpr ?_ _
    (List.mem_append_right [] (List.mem_singleton_self _))
  rintro step hstep
  obtain rfl := List.mem_singleton.mp hstep
  exact hfits

/-- From 0x10000 on 32769 times `ori r0,r0,0`, and then `blr`. -/
def straightLine (addr : Word) : Word := if addr < 0x30004 then 0x60000000 else 0x4e800020

theorem straightLine_endsAt {j : Nat} (h : EndsAt sheepBuild straightLine 0x10000 j) :
    32768 < j + 1 := by
  by_contra hle
  have haddr : (instrAddr 0x10000 j).toNat = 0x10000 + 4 * j := by
    rw [instrAddr, BitVec.toNat_add, BitVec.toNat_ofNat]
    simp
    omega
  have hori : straightLine (instrAddr 0x10000 j) = 0x60000000 := by
    refine if_pos ?_
    rw [BitVec.lt_def, haddr]
    simp
    omega
  have hnormal : (sheepBuild.decoder.decode 0x60000000).endsBlock = false := by
    rw [sheepBuild, initDecoder_decode]
    decide +kernel
  rw [EndsAt, hori] at h
  exact Bool.false_ne_true (hnormal.symm.trans h)

theorem straightLine_outOfBounds :
    Run sheepBuild [] emptyDecodeCache ∧
      ∃ i, (Op.predecode straightLine 0x10000 0x10000).Writes sheepBuild emptyDecodeCache i ∧
        decodeCacheMaxEntries ≤ i := by
  refine ⟨emptyDecodeCache_run, ?_⟩
  by_contra hno
  have hin : (Op.predecode straightLine 0x10000 0x10000).InBounds sheepBuild emptyDecodeCache :=
    fun i hi => Nat.lt_of_not_le fun hle => hno ⟨i, hi, hle⟩
  obtain ⟨a, ha⟩ := emptyDecodeCache_run.arena
  obtain ⟨-, n, ⟨j, rfl, hend, -⟩, hlen⟩ := ha.fits hin
  have hlong := straightLine_endsAt hend
  have hone : sheepBuild.entriesPerInstr emptyDecodeCache.logging = 1 := rfl
  rw [hone, Nat.mul_one, decodeCacheMaxEntries] at hlen
  omega

end DecodeCache

end SheepShear.Kpx
