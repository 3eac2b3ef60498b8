import SheepShear.Cd.Cache

/-!
# What cached reads return

The cache holds whole sectors of the disc, so reads never return other bytes than
those of the disc. A read that the read-ahead takes past the end of the disc
stops after its first sector that was not in the cache.
-/

namespace SheepShear.Cd

variable {disc : List Byte} {c : CacheType} {p : Progress} {lba count : Nat}

def sector (disc : List Byte) (block : Nat) : List Byte := (disc.drop (block * ss)).take ss

/-- The slots in use hold sectors of the disc. -/
structure Valid (disc : List Byte) (c : CacheType) : Prop where
  resCount : c.resCount ≤ nblocks
  fresh : c.inited = false → c.resCount = 0
  slots : ∀ {i}, i < c.resCount →
    c.blocks i = sector disc (c.block i) ∧ (c.block i + 1) * ss ≤ disc.length

theorem start_valid (disc : List Byte) : Valid disc .start where
  resCount := Nat.zero_le _
  fresh _ := rfl
  slots h := absurd h (Nat.not_lt_zero _)

theorem cacheClear_valid (h : Valid disc c) : Valid disc (cacheClear c) := by
  unfold cacheClear
  split_ifs with hinited
  · exact ⟨Nat.zero_le _, fun _ => rfl, fun hi => absurd hi (Nat.not_lt_zero _)⟩
  · exact h

theorem init_valid (h : Valid disc c) (hinited : c.inited = false) : Valid disc c.init := by
  have hres : c.init.resCount = 0 := by simp [CacheType.init, cacheClear, hinited, h.fresh hinited]
  refine ⟨by omega, fun _ => hres, fun hi => ?_⟩
  rw [hres] at hi
  exact absurd hi (Nat.not_lt_zero _)

theorem inCache_some {block inx : Nat} (h : inCache c block = some inx) :
    inx < c.resCount ∧ c.block inx = block := by
  have hmem := List.mem_of_find?_eq_some h
  have hblock := List.find?_some h
  exact ⟨by simpa using hmem, by simpa using hblock⟩

theorem getLRU_lt (c : CacheType) : getLRU c < nblocks := by
  have hfold : ∀ (is : List Nat) (r : Nat), r < nblocks → (∀ i ∈ is, i < nblocks) →
      is.foldl (fun result i => if c.lru i < c.lru result then i else result) r < nblocks := by
    intro is
    induction is with
    | nil => exact fun r hr _ => hr
    | cons i is ih =>
      intro r hr his
      refine ih _ ?_ fun j hj => his j (List.mem_cons_of_mem _ hj)
      dsimp only
      split_ifs
      · exact his i List.mem_cons_self
      · exact hr
  refine hfold _ 0 (by decide) fun i hi => ?_
  rw [List.mem_range'_1] at hi
  simp only [nblocks] at hi ⊢
  omega

theorem cacheGet_some (h : Valid disc c) {block : Nat} {buf : List Byte}
    (hget : cacheGet c block = some buf) :
    buf = sector disc block ∧ (block + 1) * ss ≤ disc.length := by
  unfold cacheGet at hget
  split_ifs at hget with hinited
  obtain ⟨inx, hinx, rfl⟩ := Option.map_eq_some_iff.mp hget
  obtain ⟨hlt, rfl⟩ := inCache_some hinx
  exact h.slots hlt

theorem cachePut_valid (h : Valid disc c) (tick : Nat) {block : Nat}
    (hblock : (block + 1) * ss ≤ disc.length) :
    Valid disc (cachePut tick c block (sector disc block)) := by
  unfold cachePut
  have hinit : Valid disc (if c.inited then c else c.init) := by
    split_ifs with hinited
    · exact h
    · exact init_valid h (by simpa using hinited)
  have hinited : (if c.inited then c else c.init).inited = true := by
    split_ifs with hinited
    · exact hinited
    · rfl
  generalize (if c.inited then c else c.init) = c at hinit hinited
  dsimp only
  split
  next inx hinx =>
    obtain ⟨hlt, hb⟩ := inCache_some hinx
    refine ⟨hinit.resCount, by simp [hinited], ?_⟩
    intro i hi
    by_cases hne : i = inx
    · subst hne
      simp only [Function.update_self, hb, true_and]
      exact hblock
    · simp only [Function.update_of_ne hne]
      exact hinit.slots hi
  next =>
    have hres := hinit.resCount
    refine ⟨?_, by simp [hinited], ?_⟩
    · dsimp only
      split_ifs <;> omega
    intro i hi
    generalize hinx : (if c.resCount = nblocks then getLRU c else c.resCount) = inx at hi ⊢
    by_cases hne : i = inx
    · subst hne
      simp only [Function.update_self, true_and]
      exact hblock
    · simp only [Function.update_of_ne hne]
      refine hinit.slots ?_
      -- The one slot that may be new is the one that was put.
      dsimp only at hi
      split_ifs at hi hinx <;> omega

-- ---------------------------------------------------------------------------
-- Progress of a read
-- ---------------------------------------------------------------------------

/-- The bytes that `i` sectors of a range give. -/
def bytesDone (lba count i : Nat) : Nat := min count (i * ss - lba % ss)

/-- The first `i` sectors of the range are done, and they are all on the disc. -/
structure Done (disc : List Byte) (lba count : Nat) (p : Progress) : Prop where
  out : p.out = (disc.drop lba).take (bytesDone lba count p.i)
  sInx : p.sInx = if p.i = 0 then lba % ss else 0
  cCount : p.cCount = min (ss - p.sInx) (count - bytesDone lba count p.i)
  inside : p.i = 0 ∨ (lba / ss + p.i) * ss ≤ disc.length

theorem start_done (disc : List Byte) (lba count : Nat) : Done disc lba count (.start lba count) := by
  have hmod : lba - lba / ss * ss = lba % ss := by
    have := Nat.mod_add_div' lba ss
    omega
  refine ⟨?_, ?_, ?_, .inl rfl⟩
  · simp [Progress.start, bytesDone]
  · simp [Progress.start, hmod]
  · simp [Progress.start, bytesDone]

theorem Done.length (h : Done disc lba count p) : p.out.length = bytesDone lba count p.i := by
  rw [h.out, List.length_take, List.length_drop, min_eq_left]
  have hmod := Nat.mod_add_div' lba ss
  rcases h.inside with h0 | hin
  · simp [bytesDone, h0]
  · simp only [bytesDone, ss] at *
    omega

theorem Done.bounds (h : Done disc lba count p) :
    p.sInx + p.cCount ≤ ss ∧ bytesDone lba count (p.i + 1) = bytesDone lba count p.i + p.cCount ∧
      (0 < p.cCount → (lba / ss + p.i) * ss + p.sInx = lba + bytesDone lba count p.i) := by
  have hs := h.sInx
  have hc := h.cCount
  have hmod := Nat.mod_add_div' lba ss
  have hlt : lba % ss < ss := Nat.mod_lt _ (by decide)
  by_cases h0 : p.i = 0
  · simp only [h0, if_true] at hs
    simp only [bytesDone, h0, ss] at *
    omega
  · rw [if_neg h0] at hs
    simp only [bytesDone, ss] at *
    omega

theorem drop_take_drop_take (l : List Byte) {a b n : Nat} (h : a + b ≤ n) :
    ((l.take n).drop a).take b = (l.drop a).take b := by
  rw [List.drop_take, List.take_take, min_eq_left (by omega)]

/-- The part of a sector that belongs to the range follows what is done. -/
theorem Done.extend (h : Done disc lba count p) {src : List Byte}
    (hsrc : src.take ss = sector disc (lba / ss + p.i)) :
    p.out ++ (src.drop p.sInx).take p.cCount =
      (disc.drop lba).take (bytesDone lba count (p.i + 1)) := by
  obtain ⟨hle, hnext, hpos⟩ := h.bounds
  rw [h.out, hnext]
  rcases Nat.eq_zero_or_pos p.cCount with hzero | hcount
  · simp [hzero]
  · rw [← drop_take_drop_take src hle, hsrc, sector, drop_take_drop_take _ hle, List.drop_drop,
      hpos hcount, List.take_add, List.drop_drop]

theorem Done.copy (h : Done disc lba count p)
    (hin : (lba / ss + p.i + 1) * ss ≤ disc.length) :
    Done disc lba count (p.copy count (sector disc (lba / ss + p.i))) := by
  have hsec : (sector disc (lba / ss + p.i)).take ss = sector disc (lba / ss + p.i) := by
    rw [sector, List.take_take, min_self]
  have hout := h.extend hsec
  have hlen : bytesDone lba count (p.i + 1) ≤ disc.length - lba := by
    have hmod := Nat.mod_add_div' lba ss
    simp only [bytesDone, ss] at *
    omega
  refine ⟨hout, ?_, ?_, .inr ?_⟩
  · simp [Progress.copy]
  · simp only [Progress.copy, hout, List.length_take, List.length_drop, min_eq_left hlen, Nat.sub_zero]
  · simp only [Progress.copy]
    rw [← add_assoc]
    exact hin

/-- The sectors from `block` on that are in the cache, up to the first of `n` that is not. -/
def cachedRun (c : CacheType) : (block n : Nat) → Nat
  | _, 0 => 0
  | block, n + 1 => if (cacheGet c block).isSome then cachedRun c (block + 1) n + 1 else 0

theorem cachedRun_le (c : CacheType) (block n : Nat) : cachedRun c block n ≤ n := by
  induction n generalizing block with
  | zero => exact le_rfl
  | succ n ih =>
    rw [cachedRun]
    split_ifs
    · exact Nat.succ_le_succ (ih _)
    · exact Nat.zero_le _

theorem copyCached_done (hv : Valid disc c) (left : Nat) (h : Done disc lba count p) :
    Done disc lba count (copyCached c (lba / ss) count left p) ∧
      (copyCached c (lba / ss) count left p).i = p.i + cachedRun c (lba / ss + p.i) left := by
  induction left generalizing p with
  | zero => exact ⟨h, rfl⟩
  | succ left ih =>
    rw [copyCached, cachedRun]
    cases hget : cacheGet c (lba / ss + p.i) with
    | none => exact ⟨h, rfl⟩
    | some buf =>
      obtain ⟨rfl, hin⟩ := cacheGet_some hv hget
      obtain ⟨hdone, hi⟩ := ih (h.copy hin)
      refine ⟨hdone, ?_⟩
      dsimp only
      rw [hi]
      simp only [Progress.copy, Option.isSome_some, if_true, ← add_assoc]
      omega

theorem copyRead_done (hv : Valid disc c) (ticks : Nat → Nat) {left : Nat} {buf : List Byte}
    (hbuf : buf = readCdBytes disc ((lba / ss + p.i) * ss) (left * ss))
    (hin : (lba / ss + p.i + left) * ss ≤ disc.length) (h : Done disc lba count p) :
    Done disc lba count (copyRead ticks (lba / ss) count left buf p c).1 ∧
      (copyRead ticks (lba / ss) count left buf p c).1.i = p.i + left ∧
      Valid disc (copyRead ticks (lba / ss) count left buf p c).2 := by
  induction left generalizing p c buf with
  | zero => exact ⟨h, rfl, hv⟩
  | succ left ih =>
    have hblock : (lba / ss + p.i + 1) * ss ≤ disc.length :=
      (Nat.mul_le_mul_right ss (by omega)).trans hin
    have htake : buf.take ss = sector disc (lba / ss + p.i) := by
      rw [hbuf, readCdBytes, sector, List.take_take, min_eq_left (by simp only [ss]; omega)]
    have hdrop : buf.drop ss = readCdBytes disc ((lba / ss + (p.i + 1)) * ss) (left * ss) := by
      have hstart : (lba / ss + p.i) * ss + ss = (lba / ss + (p.i + 1)) * ss := by ring
      have hcount : (left + 1) * ss - ss = left * ss := by
        rw [Nat.succ_mul, Nat.add_sub_cancel]
      rw [hbuf, readCdBytes, readCdBytes, List.drop_take, List.drop_drop, hstart, hcount]
    have hin' : (lba / ss + (p.i + 1) + left) * ss ≤ disc.length := by
      rw [show lba / ss + (p.i + 1) + left = lba / ss + p.i + (left + 1) by omega]
      exact hin
    have hput := cachePut_valid hv (ticks (lba / ss + p.i)) hblock
    have hcopy := h.copy hblock
    have hnext : (p.copy count (sector disc (lba / ss + p.i))).i = p.i + 1 := rfl
    rw [copyRead, htake]
    generalize p.copy count (sector disc (lba / ss + p.i)) = q at hcopy hnext ⊢
    rw [← hnext] at hdrop hin'
    obtain ⟨hdone, hi, hvalid⟩ := ih hput hdrop hin' hcopy
    refine ⟨hdone, ?_, hvalid⟩
    rw [hi, hnext, add_assoc, add_comm 1]

theorem blocksOf_bounds (lba : Nat) (hcount : 0 < count) :
    count ≤ blocksOf lba count * ss - lba % ss ∧ 0 < blocksOf lba count ∧
      ∀ {i}, i < blocksOf lba count → i * ss - lba % ss < count := by
  refine ⟨?_, ?_, ?_⟩
  · simp only [blocksOf, ss]
    omega
  · simp only [blocksOf, ss]
    omega
  · intro i hi
    simp only [blocksOf, ss] at *
    omega

-- ---------------------------------------------------------------------------
-- One device read
-- ---------------------------------------------------------------------------

/-- The first sector of the range that is not in the cache is read with all that has to be read
after it, or nothing of the range on the disc comes after it. -/
def InTime (disc : List Byte) (c : CacheType) (lba count : Nat) : Prop :=
  let missing := lba / ss + cachedRun c (lba / ss) (blocksOf lba count)
  let stop := lba / ss + blocksOf lba count
  missing = stop ∨ (missing + max (stop - missing) cdReadAheadSectors) * ss ≤ disc.length ∨
    min (lba + count) disc.length ≤ (missing + 1) * ss

/-- What `cd_read` returns when the device read comes to the end of the disc. -/
def shortRead (disc : List Byte) (p : Progress) (block left : Nat) : List Byte :=
  let got := readCdBytes disc (block * ss) (left * ss)
  p.out ++ ((got ++ List.replicate (left * ss - got.length) 0).drop p.sInx).take
    (min p.cCount got.length)

theorem length_readCdBytes (disc : List Byte) (block left : Nat) :
    (readCdBytes disc (block * ss) (left * ss)).length =
      min (left * ss) (disc.length - block * ss) := by
  rw [readCdBytes, List.length_take, List.length_drop]

/-- The part of the first missing sector is returned, if there is such a sector. -/
theorem Done.shortRead (hdisc : ss ∣ disc.length) (h : Done disc lba count p) {left : Nat}
    (hpos : 0 < left) :
    shortRead disc p (lba / ss + p.i) left =
      if disc.length ≤ (lba / ss + p.i) * ss then p.out
      else (disc.drop lba).take (bytesDone lba count (p.i + 1)) := by
  have hlen := length_readCdBytes disc (lba / ss + p.i) left
  unfold Cd.shortRead
  dsimp only
  split_ifs with hend
  · rw [Nat.sub_eq_zero_of_le hend, Nat.min_zero] at hlen
    rw [hlen, Nat.min_zero, List.take_zero, List.append_nil]
  · -- The disc has whole sectors, so all of the missing one was read.
    have hin : (lba / ss + p.i + 1) * ss ≤ disc.length := by
      obtain ⟨k, hk⟩ := hdisc
      rw [hk, mul_comm ss k] at hend ⊢
      exact Nat.mul_le_mul_right ss (Nat.lt_of_mul_lt_mul_right (not_le.mp hend))
    have hss : ss ≤ (readCdBytes disc ((lba / ss + p.i) * ss) (left * ss)).length := by
      have hone : 1 * ss ≤ left * ss := Nat.mul_le_mul_right ss hpos
      rw [Nat.succ_mul] at hin
      omega
    have hcount : p.cCount ≤ ss := (Nat.le_add_left ..).trans h.bounds.1
    rw [min_eq_left (hcount.trans hss)]
    refine h.extend ?_
    rw [List.take_append_of_le_length hss, readCdBytes, List.take_take, sector, min_eq_left]
    exact Nat.le_mul_of_pos_left ss hpos

theorem cdRead_spec (hdisc : ss ∣ disc.length) (hv : Valid disc c) (ticks : Nat → Nat)
    (lba : Nat) (hcount : 0 < count) :
    Valid disc (cdRead disc ticks c lba count).2 ∧
      (cdRead disc ticks c lba count).1 <+: (disc.drop lba).take count ∧
      ((cdRead disc ticks c lba count).1 = (disc.drop lba).take count ↔ InTime disc c lba count) := by
  obtain ⟨hall, hpos, hbefore⟩ := blocksOf_bounds lba hcount
  obtain ⟨hdone, hi⟩ := copyCached_done hv (blocksOf lba count) (start_done disc lba count)
  have hrun := cachedRun_le c (lba / ss) (blocksOf lba count)
  rw [show (Progress.start lba count).i = 0 from rfl, zero_add, add_zero] at hi
  unfold cdRead InTime
  rw [if_neg (by omega)]
  dsimp only
  generalize copyCached c (lba / ss) count (blocksOf lba count) (.start lba count) = p at hdone hi ⊢
  rw [← hi] at hrun ⊢
  have hfinished : ∀ {q : Progress}, Done disc lba count q → blocksOf lba count ≤ q.i →
      q.out = (disc.drop lba).take count := by
    intro q hq hle
    have hmul := Nat.mul_le_mul_right ss hle
    rw [hq.out, bytesDone, min_eq_left (by omega)]
  rcases hrun.eq_or_lt with hend | hlt
  · rw [if_neg (by simp [hend]), hfinished hdone hend.ge]
    exact ⟨hv, List.prefix_rfl, by simp [hend]⟩
  · have hlen : p.out.length < count := by
      rw [hdone.length]
      exact (min_le_right _ _).trans_lt (hbefore hlt)
    rw [if_pos ⟨hlt.ne, hlen.ne'⟩, Nat.add_sub_add_left]
    generalize hleft : max (blocksOf lba count - p.i) cdReadAheadSectors = left
    have hpos : 0 < left := by
      rw [← hleft]
      exact lt_max_of_lt_right (by decide)
    have hgot := length_readCdBytes disc (lba / ss + p.i) left
    have hsplit : (lba / ss + p.i + left) * ss = (lba / ss + p.i) * ss + left * ss := add_mul ..
    have hmissing : lba / ss + p.i ≠ lba / ss + blocksOf lba count := by omega
    by_cases hfull : (lba / ss + p.i + left) * ss ≤ disc.length
    · rw [if_neg (by rw [not_not]; omega)]
      obtain ⟨hread, hi', hvalid⟩ := copyRead_done hv ticks rfl hfull hdone
      refine ⟨hvalid, ?_, ?_⟩
      · rw [hfinished hread (by omega)]
      · exact iff_of_true (hfinished hread (by omega)) (.inr (.inl hfull))
    · have hss : 0 < left * ss := Nat.mul_pos hpos (by decide)
      have hne : (readCdBytes disc ((lba / ss + p.i) * ss) (left * ss)).length ≠ left * ss := by
        omega
      rw [if_pos hne]
      refine ⟨hv, ?_⟩
      change Cd.shortRead disc p (lba / ss + p.i) left <+: _ ∧
        (Cd.shortRead disc p (lba / ss + p.i) left = _ ↔ _)
      rw [hdone.shortRead hdisc hpos]
      have hthird : (lba / ss + p.i = lba / ss + blocksOf lba count ∨
          (lba / ss + p.i + left) * ss ≤ disc.length ∨
            min (lba + count) disc.length ≤ (lba / ss + p.i + 1) * ss) ↔
          min (lba + count) disc.length ≤ (lba / ss + p.i + 1) * ss := by
        simp only [hmissing, hfull, false_or]
      rw [hthird]
      have hbytes := hbefore hlt
      have hmod := Nat.mod_add_div' lba ss
      split_ifs with hend
      · -- There is no more of the disc.
        have hall : p.out = (disc.drop lba).take count := by
          rw [hdone.out, List.take_eq_take_iff, List.length_drop]
          rcases hdone.inside with h0 | hin
          · simp only [h0, ss] at *
            omega
          · simp only [bytesDone, ss] at *
            omega
        rw [hall]
        refine ⟨List.prefix_rfl, iff_of_true rfl ?_⟩
        simp only [ss] at *
        omega
      · refine ⟨List.take_prefix_take_left (min_le_left ..), ?_⟩
        rw [List.take_eq_take_iff, List.length_drop]
        simp only [bytesDone, ss] at *
        omega

-- ---------------------------------------------------------------------------
-- Sys_read
-- ---------------------------------------------------------------------------

/-- All pieces that a read consists of are in time. -/
def Timely (disc : List Byte) (sys : System) :
    (fuel : Nat) → CacheType → (offset bytesLeft : Nat) → Prop
  | 0, _, _, _ => True
  | fuel + 1, c, offset, bytesLeft =>
    let tryBytes := min bytesLeft maxPiece
    bytesLeft = 0 ∨ InTime disc c offset tryBytes ∧
      (offset + tryBytes ≤ disc.length →
        Timely disc sys fuel (cdRead disc (sys.ticks offset) c offset tryBytes).2
          (offset + tryBytes) (bytesLeft - tryBytes))

theorem take_split (disc : List Byte) (offset : Nat) {t left : Nat} (h : t ≤ left) :
    (disc.drop offset).take left =
      (disc.drop offset).take t ++ (disc.drop (offset + t)).take (left - t) := by
  obtain ⟨d, rfl⟩ := Nat.exists_eq_add_of_le h
  rw [List.take_add, List.drop_drop, Nat.add_sub_cancel_left]

theorem sysReadLoop_spec (hdisc : ss ∣ disc.length) (sys : System) {fuel : Nat}
    (hv : Valid disc c) (offset : Nat) {left : Nat} (hfuel : left ≤ fuel) :
    Valid disc (sysReadLoop disc sys fuel c offset left).2 ∧
      (sysReadLoop disc sys fuel c offset left).1 <+: (disc.drop offset).take left ∧
      ((sysReadLoop disc sys fuel c offset left).1 = (disc.drop offset).take left ↔
        Timely disc sys fuel c offset left) := by
  induction fuel generalizing c offset left with
  | zero =>
    obtain rfl : left = 0 := by omega
    exact ⟨hv, List.nil_prefix, iff_of_true rfl trivial⟩
  | succ fuel ih =>
    unfold sysReadLoop Timely
    dsimp only
    rcases Nat.eq_zero_or_pos left with rfl | hpos
    · exact ⟨hv, List.nil_prefix, iff_of_true rfl (.inl rfl)⟩
    rw [if_neg hpos.ne']
    have htry : 0 < min left maxPiece := lt_min hpos (by decide)
    have hle : min left maxPiece ≤ left := min_le_left ..
    obtain ⟨hvalid, hlead, hiff⟩ := cdRead_spec hdisc hv (sys.ticks offset) offset htry
    generalize cdRead disc (sys.ticks offset) c offset (min left maxPiece) = r at hvalid hlead hiff ⊢
    obtain ⟨got, c'⟩ := r
    dsimp only at hvalid hlead hiff ⊢
    generalize min left maxPiece = t at htry hle hlead hiff ⊢
    have hlen : ((disc.drop offset).take t).length = min t (disc.length - offset) := by
      rw [List.length_take, List.length_drop]
    have hsplit := take_split disc offset hle
    by_cases hshort : got.length = t
    · rw [if_neg (by simp [hshort]), if_neg (by simp [hshort])]
      have hpiece : got = (disc.drop offset).take t := by
        refine hlead.eq_of_length_le ?_
        rw [hlen, hshort]
        exact min_le_left ..
      have hinside : offset + t ≤ disc.length := by
        rw [← hpiece, hshort] at hlen
        omega
      have hrest : left - t ≤ fuel := by omega
      obtain ⟨hvalid', hlead', hiff'⟩ := ih hvalid (offset + t) hrest
      refine ⟨hvalid', ?_, ?_⟩
      · rw [hsplit, ← hpiece]
        exact (List.prefix_append_right_inj got).mpr hlead'
      · rw [hsplit, ← hpiece, List.append_cancel_left_eq, hiff']
        simp [hpos.ne', hiff.mp hpiece, hinside]
    · rw [if_pos (by simpa using hshort)]
      have hclear : Valid disc
          (if got.length ≠ t ∧ (!sys.nocdrom) = true then cacheClear c' else c') := by
        split_ifs
        · exact cacheClear_valid hvalid
        · exact hvalid
      refine ⟨hclear, ?_, ?_⟩
      · rw [hsplit]
        exact hlead.trans (List.prefix_append ..)
      · by_cases hinside : offset + t ≤ disc.length
        · -- The piece is on the disc and was not read to its end.
          have hlt : got.length < t := by
            have := hlead.length_le
            omega
          refine iff_of_false ?_ ?_
          · intro heq
            dsimp only at heq
            have hall : got.length = min left (disc.length - offset) := by
              rw [heq, List.length_take, List.length_drop]
            omega
          · rintro (h0 | ⟨hin, -⟩)
            · exact hpos.ne' h0
            · have := congrArg List.length (hiff.mpr hin)
              rw [hlen] at this
              omega
        · have hsame : (disc.drop offset).take left = (disc.drop offset).take t := by
            rw [List.take_eq_take_iff, List.length_drop]
            omega
          rw [hsame, hiff]
          simp [hpos.ne', hinside]

-- ---------------------------------------------------------------------------
-- Runs
-- ---------------------------------------------------------------------------

/-- A read of a range of the disc returns it, and one that goes past the end returns what there is
of it. -/
def Transparent (disc : List Byte) (offset length : Nat) (bytes : List Byte) : Prop :=
  bytes <+: (disc.drop offset).take length ∧
    (offset + length ≤ disc.length → bytes.length = length) ∧
    (disc.length < offset + length → disc.length ≤ offset + bytes.length)

theorem transparent_iff (disc : List Byte) (offset length : Nat) (bytes : List Byte) :
    Transparent disc offset length bytes ↔ bytes = (disc.drop offset).take length := by
  constructor
  · rintro ⟨hlead, hinside, hpast⟩
    refine hlead.eq_of_length_le ?_
    rw [List.length_take, List.length_drop]
    omega
  · rintro rfl
    refine ⟨List.prefix_rfl, ?_, ?_⟩
    · rw [List.length_take, List.length_drop]
      omega
    · rw [List.length_take, List.length_drop]
      omega

theorem step_valid (hdisc : ss ∣ disc.length) {c' : CacheType} {op : Op} (h : Valid disc c)
    (hstep : step disc c op = some c') : Valid disc c' := by
  cases op with
  | read sys offset length =>
    cases hstep
    exact (sysReadLoop_spec hdisc sys h offset le_rfl).1
  | clear =>
    cases hstep
    exact cacheClear_valid h

/-- In every state of the cache that reads and clears lead to, a read returns only bytes of the disc,
and it is as one from the disc exactly if its pieces are in time. -/
theorem sysRead_transparent (hdisc : ss ∣ disc.length)
    (hrun : Steps.Reaches (step disc) (fun _ _ => True) .start c) (sys : System)
    (offset length : Nat) :
    (sysRead disc sys c offset length).1 <+: (disc.drop offset).take length ∧
      (Transparent disc offset length (sysRead disc sys c offset length).1 ↔
        Timely disc sys length c offset length) := by
  have hvalid : Valid disc c :=
    hrun.invariant (start_valid disc) fun h _ hstep => step_valid hdisc h hstep
  obtain ⟨-, hlead, hiff⟩ := sysReadLoop_spec hdisc sys hvalid offset le_rfl
  exact ⟨hlead, (transparent_iff ..).trans hiff⟩

def anySystem : System := ⟨false, fun _ _ => 0⟩

/-- The start of a disc with one sector. -/
theorem oneSector_transparent :
    Transparent (List.replicate 2048 7) 0 10
      (sysRead (List.replicate 2048 7) anySystem .start 0 10).1 := by
  have hdisc : ss ∣ (List.replicate 2048 (7 : Byte)).length := by
    rw [List.length_replicate]
    exact ⟨1, rfl⟩
  refine (sysRead_transparent hdisc .start anySystem 0 10).2.mpr ?_
  refine .inr ⟨.inr (.inr ?_), fun _ => .inl rfl⟩
  exact (min_le_left ..).trans (by decide)

/-- Two sectors of a disc with four. -/
theorem twoSectors_short :
    (sysRead (List.replicate 8192 7) anySystem .start 0 4096).1.length = 2048 ∧
      ¬ Transparent (List.replicate 8192 7) 0 4096
        (sysRead (List.replicate 8192 7) anySystem .start 0 4096).1 := by
  have hlen : (sysRead (List.replicate 8192 7) anySystem .start 0 4096).1.length = 2048 := by
    decide +kernel
  refine ⟨hlen, ?_⟩
  rintro ⟨-, hinside, -⟩
  rw [hlen, List.length_replicate] at hinside
  exact absurd (hinside (by decide)) (by decide)

end SheepShear.Cd
