import SheepShear.Lib.Bytes
import SheepShear.Lib.Steps

/-!
# Relative mouse movement

The mouse half of `ADBInput` in relative mode: `MouseMoved` and the buttons on the
event thread, the mouse registers of `Op`, and the mouse part of `Interrupt`. An
`int` has 32 bits. The coordinates are added to and taken under the mutex, so that
`Interrupt` has two steps: it takes the coordinates, and it calls the handler. The
interrupt flag and the keyboard are left out.
-/

namespace SheepShear.Adb

open Steps

/-- The bytes of `tmp_data` for the mouse handler; `handler` is `fMouseRegister3[1]`. -/
def mousePacket (handler : Byte) (mx my : BitVec 32) (mb : Fin 3 → Bool) : List Byte :=
  let up (b : Bool) : BitVec 32 := if b then 0 else 0x80
  let first := (my &&& 0x7f ||| up (mb 0)).setWidth 8
  let second := (mx &&& 0x7f ||| up (mb 1)).setWidth 8
  if handler = 4 then
    [3, first, second,
      ((my.sshiftRight 3 &&& 0x70) ||| (mx.sshiftRight 7 &&& 0x07) |||
        (if mb 2 then 0x08 else 0x88)).setWidth 8]
  else [2, first, second]

/-- The movement that the driver reads from a packet: seven bits of each coordinate, and in the
extended protocol three more above them. -/
def decodePacket : List Byte → Int × Int
  | [_, first, second] => ((second.setWidth 7).toInt, (first.setWidth 7).toInt)
  | [_, first, second, high] =>
    ((high.extractLsb' 0 3 ++ second.setWidth 7).toInt,
      (high.extractLsb' 4 3 ++ first.setWidth 7).toInt)
  | _ => (0, 0)

/-- The places in `Interrupt`; `due` is the movement that was posted since the coordinates were
taken before. -/
inductive MouseInterrupt where
  | outside
  | taken (mx my : BitVec 32) (mb : Fin 3 → Bool) (due : Int × Int)

/-- `posted` is the sum of all movements, `takenSum` that of those before the coordinates were
taken last, and `decoded` what the driver has read. `ends` has for each end of `Interrupt` what the
driver had read then and what was posted before. -/
structure ADBMouse where
  coordX : BitVec 32
  coordY : BitVec 32
  button : Fin 3 → Bool
  oldButton : Fin 3 → Bool
  handler : Byte
  interrupt : MouseInterrupt
  posted : Int × Int
  takenSum : Int × Int
  decoded : Int × Int
  ends : List ((Int × Int) × (Int × Int))

/-- As `SetRelMouseMode` leaves it. -/
def ADBMouse.start (button oldButton : Fin 3 → Bool) (handler : Byte) : ADBMouse where
  coordX := 0
  coordY := 0
  button
  oldButton
  handler
  interrupt := .outside
  posted := 0
  takenSum := 0
  decoded := 0
  ends := []

inductive MouseAct where
  | mouseMoved (x y : BitVec 32)
  | mouseDown (button : Fin 3)
  | mouseUp (button : Fin 3)
  | reset
  | listen (handler : Byte)
  | interrupt (adbBase : Word)
  | call

/-- `Interrupt` does nothing while this is in the low memory global. -/
def notInitialized (adbBase : Word) : Bool := adbBase = 0 || adbBase = 0xffffffff

def mouseStep (s : ADBMouse) : MouseAct → Option ADBMouse
  | .mouseMoved x y => some { s with
      coordX := s.coordX + x
      coordY := s.coordY + y
      posted := s.posted + (x.toInt, y.toInt) }
  | .mouseDown button => some { s with button := Function.update s.button button true }
  | .mouseUp button => some { s with button := Function.update s.button button false }
  | .reset => some { s with handler := 1 }
  | .listen handler =>
    some { s with
      handler := if handler = 1 ∨ handler = 2 ∨ handler = 4 then handler else s.handler }
  | .interrupt adbBase =>
    match s.interrupt with
    | .taken .. => none
    | .outside =>
      if notInitialized adbBase then some { s with ends := s.ends ++ [(s.decoded, s.posted)] }
      else some { s with
        coordX := 0
        coordY := 0
        interrupt := .taken s.coordX s.coordY s.button (s.posted - s.takenSum)
        takenSum := s.posted }
  | .call =>
    match s.interrupt with
    | .outside => none
    | .taken mx my mb _ =>
      let moved := mx ≠ 0 ∨ my ≠ 0 ∨ mb ≠ s.oldButton
      let decoded :=
        if moved then s.decoded + decodePacket (mousePacket s.handler mx my mb) else s.decoded
      some { s with
        oldButton := if moved then mb else s.oldButton
        interrupt := .outside
        decoded
        ends := s.ends ++ [(decoded, s.takenSum)] }

-- ---------------------------------------------------------------------------
-- Packets
-- ---------------------------------------------------------------------------

/-- The bits that a packet has for a coordinate. -/
def deltaBits (handler : Byte) : Nat := if handler = 4 then 10 else 7

theorem setWidth_or_up (v up : BitVec 32) (hup : up = 0 ∨ up = 0x80) :
    ((v &&& 0x7f ||| up).setWidth 8).setWidth 7 = v.setWidth 7 := by
  rcases hup with rfl | rfl <;> ext i hi <;>
    rcases (by omega : i = 0 ∨ i = 1 ∨ i = 2 ∨ i = 3 ∨ i = 4 ∨ i = 5 ∨ i = 6) with
      rfl | rfl | rfl | rfl | rfl | rfl | rfl <;> simp

theorem high_bits (mx my up : BitVec 32) (hup : up = 0x08 ∨ up = 0x88) :
    ((my.sshiftRight 3 &&& 0x70 ||| mx.sshiftRight 7 &&& 0x07 ||| up).setWidth 8).extractLsb' 0 3 =
        mx.extractLsb' 7 3 ∧
      ((my.sshiftRight 3 &&& 0x70 ||| mx.sshiftRight 7 &&& 0x07 ||| up).setWidth 8).extractLsb' 4 3 =
        my.extractLsb' 7 3 := by
  rcases hup with rfl | rfl <;> constructor <;> ext i hi <;>
    rcases (by omega : i = 0 ∨ i = 1 ∨ i = 2) with rfl | rfl | rfl <;>
      simp [BitVec.getElem_sshiftRight]

theorem extractLsb'_append_setWidth (v : BitVec 32) :
    v.extractLsb' 7 3 ++ v.setWidth 7 = v.setWidth 10 := by
  ext i hi
  rw [BitVec.getElem_append]
  split
  · simp
  · have hback : 7 + (i - 7) = i := by omega
    simp [hback]

/-- The driver reads the low bits of the coordinates, in two's complement. -/
theorem decodePacket_mousePacket (handler : Byte) (mx my : BitVec 32) (mb : Fin 3 → Bool) :
    decodePacket (mousePacket handler mx my mb) =
      ((mx.setWidth (deltaBits handler)).toInt, (my.setWidth (deltaBits handler)).toInt) := by
  have hup (b : Bool) : (if b then (0 : BitVec 32) else 0x80) = 0 ∨
      (if b then (0 : BitVec 32) else 0x80) = 0x80 := by
    cases b <;> simp
  have hthird : (if mb 2 then (0x08 : BitVec 32) else 0x88) = 0x08 ∨
      (if mb 2 then (0x08 : BitVec 32) else 0x88) = 0x88 := by
    cases mb 2 <;> simp
  by_cases hextended : handler = 4
  · obtain ⟨hx, hy⟩ := high_bits mx my _ hthird
    have hbits : deltaBits handler = 10 := if_pos hextended
    rw [hbits]
    simp only [mousePacket, hextended, if_true, decodePacket]
    rw [setWidth_or_up _ _ (hup _), setWidth_or_up _ _ (hup _), hx, hy,
      extractLsb'_append_setWidth, extractLsb'_append_setWidth]
  · have hbits : deltaBits handler = 7 := if_neg hextended
    rw [hbits]
    simp only [mousePacket, hextended, if_false, decodePacket]
    rw [setWidth_or_up _ _ (hup _), setWidth_or_up _ _ (hup _)]

theorem toInt_setWidth_ofInt (d : Int) {n : Nat} (hn : n ≤ 32) :
    ((BitVec.ofInt 32 d).setWidth n).toInt = d.bmod (2 ^ n) := by
  have hdvd : 2 ^ n ∣ 2 ^ 32 := Nat.pow_dvd_pow 2 hn
  rw [BitVec.toInt_setWidth, ← Int.bmod_bmod_of_dvd hdvd, ← BitVec.toInt_eq_toNat_bmod,
    BitVec.toInt_ofInt, Int.bmod_bmod_of_dvd hdvd]

-- ---------------------------------------------------------------------------
-- Conservation
-- ---------------------------------------------------------------------------

/-- The movement has a two's complement form of this many bits. -/
def FitsDelta (bits : Nat) (d : Int) : Prop := -2 ^ (bits - 1) ≤ d ∧ d < 2 ^ (bits - 1)

/-- A packet has room for the movement that it is about, and an `Interrupt` that does nothing has
nothing to send. -/
def Sendable (s : ADBMouse) : MouseAct → Prop
  | .interrupt adbBase => notInitialized adbBase → s.posted = s.takenSum
  | .call =>
    match s.interrupt with
    | .outside => True
    | .taken _ _ _ due =>
      FitsDelta (deltaBits s.handler) due.1 ∧ FitsDelta (deltaBits s.handler) due.2
  | _ => True

/-- At each end of an `Interrupt` the driver had read all that was posted before it. -/
def Conserved (s : ADBMouse) : Prop := ∀ e ∈ s.ends, e.1 = e.2

structure MouseInv (s : ADBMouse) : Prop where
  coordX : s.coordX = BitVec.ofInt 32 (s.posted.1 - s.takenSum.1)
  coordY : s.coordY = BitVec.ofInt 32 (s.posted.2 - s.takenSum.2)
  outside : s.interrupt = .outside → s.decoded = s.takenSum
  taken : ∀ mx my mb due, s.interrupt = .taken mx my mb due →
    mx = BitVec.ofInt 32 due.1 ∧ my = BitVec.ofInt 32 due.2 ∧ s.decoded + due = s.takenSum
  ends : Conserved s

theorem ADBMouse.start_inv (button oldButton : Fin 3 → Bool) (handler : Byte) :
    MouseInv (ADBMouse.start button oldButton handler) where
  coordX := rfl
  coordY := rfl
  outside _ := rfl
  taken _ _ _ _ h := nomatch h
  ends _ h := nomatch h

theorem bmod_eq_self_iff (handler : Byte) (d : Int) :
    d.bmod (2 ^ deltaBits handler) = d ↔ FitsDelta (deltaBits handler) d := by
  unfold deltaBits FitsDelta
  split <;> rw [Int.bmod_def] <;> split <;> omega

/-- What the driver reads is the movement that is due exactly if it fits. -/
theorem read_eq_iff (handler : Byte) (due : Int × Int) :
    (((BitVec.ofInt 32 due.1).setWidth (deltaBits handler)).toInt,
        ((BitVec.ofInt 32 due.2).setWidth (deltaBits handler)).toInt) = due ↔
      FitsDelta (deltaBits handler) due.1 ∧ FitsDelta (deltaBits handler) due.2 := by
  have hbits : deltaBits handler ≤ 32 := by
    unfold deltaBits
    split <;> omega
  rw [toInt_setWidth_ofInt _ hbits, toInt_setWidth_ofInt _ hbits, ← bmod_eq_self_iff,
    ← bmod_eq_self_iff, Prod.ext_iff]

theorem mouseStep_interrupt {s s' : ADBMouse} {adbBase : Word}
    (hstep : mouseStep s (.interrupt adbBase) = some s') :
    s.interrupt = .outside ∧
      s' = if notInitialized adbBase then { s with ends := s.ends ++ [(s.decoded, s.posted)] }
        else { s with
          coordX := 0
          coordY := 0
          interrupt := .taken s.coordX s.coordY s.button (s.posted - s.takenSum)
          takenSum := s.posted } := by
  cases hat : s.interrupt with
  | taken mx my mb due => simp [mouseStep, hat] at hstep
  | outside =>
    refine ⟨rfl, ?_⟩
    simp only [mouseStep, hat] at hstep
    split at hstep <;> rename_i hbase <;> rw [← Option.some.inj hstep]
    · rw [if_pos hbase]
    · rw [if_neg hbase]

/-- When no packet is sent the coordinates are zero, and the driver would have read zero. -/
theorem mouseStep_call {s s' : ADBMouse} (hstep : mouseStep s .call = some s') :
    ∃ mx my mb due oldButton, s.interrupt = .taken mx my mb due ∧
      s' = { s with
        oldButton
        interrupt := .outside
        decoded := s.decoded +
          ((mx.setWidth (deltaBits s.handler)).toInt, (my.setWidth (deltaBits s.handler)).toInt)
        ends := s.ends ++ [(s.decoded +
          ((mx.setWidth (deltaBits s.handler)).toInt, (my.setWidth (deltaBits s.handler)).toInt),
            s.takenSum)] } := by
  cases hat : s.interrupt with
  | outside => simp [mouseStep, hat] at hstep
  | taken mx my mb due =>
    simp only [mouseStep, hat] at hstep
    by_cases hmoved : mx ≠ 0 ∨ my ≠ 0 ∨ mb ≠ s.oldButton
    · rw [if_pos hmoved, if_pos hmoved, decodePacket_mousePacket] at hstep
      exact ⟨mx, my, mb, due, mb, rfl, (Option.some.inj hstep).symm⟩
    · rw [if_neg hmoved, if_neg hmoved] at hstep
      obtain ⟨hx, hy, -⟩ : mx = 0 ∧ my = 0 ∧ mb = s.oldButton := by simpa using hmoved
      refine ⟨mx, my, mb, due, s.oldButton, rfl, ?_⟩
      rw [← Option.some.inj hstep, hx, hy]
      simp

theorem Conserved.append {s : ADBMouse} (h : Conserved s) {sum : Int × Int} :
    ∀ e ∈ s.ends ++ [(sum, sum)], e.1 = e.2 := by
  intro e he
  rcases List.mem_append.mp he with he | he
  · exact h e he
  · rw [List.mem_singleton.mp he]

theorem add_ofInt (v : BitVec 32) (c d : Int) (hv : v = BitVec.ofInt 32 (c - d)) (x : BitVec 32) :
    v + x = BitVec.ofInt 32 (c + x.toInt - d) := by
  have hsum : c + x.toInt - d = (c - d) + x.toInt := by omega
  rw [hsum, BitVec.ofInt_add, BitVec.ofInt_toInt, hv]

/-- What a step preserves. -/
theorem MouseInv.step {s s' : ADBMouse} {act : MouseAct} (hinv : MouseInv s)
    (hsend : Sendable s act) (hstep : mouseStep s act = some s') : MouseInv s' := by
  cases act with
  | mouseMoved x y =>
    rw [← Option.some.inj hstep]
    exact ⟨add_ofInt _ _ _ hinv.coordX x, add_ofInt _ _ _ hinv.coordY y, hinv.outside, hinv.taken,
      hinv.ends⟩
  | mouseDown button =>
    rw [← Option.some.inj hstep]
    exact ⟨hinv.coordX, hinv.coordY, hinv.outside, hinv.taken, hinv.ends⟩
  | mouseUp button =>
    rw [← Option.some.inj hstep]
    exact ⟨hinv.coordX, hinv.coordY, hinv.outside, hinv.taken, hinv.ends⟩
  | reset =>
    rw [← Option.some.inj hstep]
    exact ⟨hinv.coordX, hinv.coordY, hinv.outside, hinv.taken, hinv.ends⟩
  | listen handler =>
    rw [← Option.some.inj hstep]
    exact ⟨hinv.coordX, hinv.coordY, hinv.outside, hinv.taken, hinv.ends⟩
  | interrupt adbBase =>
    obtain ⟨hat, rfl⟩ := mouseStep_interrupt hstep
    have hdecoded := hinv.outside hat
    by_cases hbase : notInitialized adbBase
    · rw [if_pos hbase, hdecoded, hsend hbase]
      exact ⟨hsend hbase ▸ hinv.coordX, hsend hbase ▸ hinv.coordY, fun _ => rfl,
        hdecoded ▸ hinv.taken, hinv.ends.append⟩
    · rw [if_neg hbase]
      refine ⟨by simp, by simp, nofun, ?_, hinv.ends⟩
      rintro mx my mb due ⟨⟩
      refine ⟨hinv.coordX, hinv.coordY, ?_⟩
      change s.decoded + (s.posted - s.takenSum) = s.posted
      rw [hdecoded, add_sub_cancel]
  | call =>
    obtain ⟨mx, my, mb, due, oldButton, hat, rfl⟩ := mouseStep_call hstep
    obtain ⟨rfl, rfl, hsum⟩ := hinv.taken mx my mb due hat
    rw [Sendable, hat] at hsend
    rw [(read_eq_iff s.handler due).mpr hsend, hsum]
    exact ⟨hinv.coordX, hinv.coordY, fun _ => rfl, nofun, hinv.ends.append⟩

/-- A step that is not sendable ends an `Interrupt` short of what was posted. -/
theorem MouseInv.step_break {s s' : ADBMouse} {act : MouseAct} (hinv : MouseInv s)
    (hsend : ¬Sendable s act) (hstep : mouseStep s act = some s') : ¬Conserved s' := by
  cases act with
  | mouseMoved x y => exact absurd trivial hsend
  | mouseDown button => exact absurd trivial hsend
  | mouseUp button => exact absurd trivial hsend
  | reset => exact absurd trivial hsend
  | listen handler => exact absurd trivial hsend
  | interrupt adbBase =>
    obtain ⟨hat, rfl⟩ := mouseStep_interrupt hstep
    obtain ⟨hbase, hpending⟩ := Classical.not_imp.mp hsend
    rw [if_pos hbase]
    intro hends
    have hend : s.decoded = s.posted := hends (s.decoded, s.posted) (by simp)
    exact hpending (by rw [← hend, hinv.outside hat])
  | call =>
    obtain ⟨mx, my, mb, due, oldButton, hat, rfl⟩ := mouseStep_call hstep
    obtain ⟨rfl, rfl, hsum⟩ := hinv.taken mx my mb due hat
    rw [Sendable, hat] at hsend
    intro hends
    have hend := hends _ (List.mem_append_right _ (List.mem_singleton_self _))
    rw [← hsum] at hend
    exact hsend ((read_eq_iff s.handler due).mp (add_left_cancel hend))

theorem Conserved.of_step {s s' : ADBMouse} {act : MouseAct} (hstep : mouseStep s act = some s')
    (h : Conserved s') : Conserved s := by
  cases act with
  | mouseMoved x y => exact (Option.some.inj hstep ▸ h :)
  | mouseDown button => exact (Option.some.inj hstep ▸ h :)
  | mouseUp button => exact (Option.some.inj hstep ▸ h :)
  | reset => exact (Option.some.inj hstep ▸ h :)
  | listen handler => exact (Option.some.inj hstep ▸ h :)
  | interrupt adbBase =>
    obtain ⟨-, rfl⟩ := mouseStep_interrupt hstep
    intro e he
    by_cases hbase : notInitialized adbBase
    · rw [if_pos hbase] at h
      exact h e (List.mem_append_left _ he)
    · rw [if_neg hbase] at h
      exact h e he
  | call =>
    obtain ⟨mx, my, mb, due, oldButton, -, rfl⟩ := mouseStep_call hstep
    exact fun e he => h e (List.mem_append_left _ he)

/-- Movement is conserved in exactly the runs in which all that is taken fits its packet. -/
theorem ADBMouse.conserved_iff (button oldButton : Fin 3 → Bool) (handler : Byte)
    {acts : List MouseAct} {s : ADBMouse}
    (hrun : run mouseStep (ADBMouse.start button oldButton handler) acts = some s) :
    Conserved s ↔ Guarded mouseStep Sendable (ADBMouse.start button oldButton handler) acts :=
  good_iff_guarded MouseInv.ends MouseInv.step MouseInv.step_break Conserved.of_step
    (ADBMouse.start_inv button oldButton handler) hrun

def fastMove : List MouseAct := [.mouseMoved 100 0, .interrupt 0x2000, .call]

/-- In 200 dpi mode the driver reads a movement of 100 as one of 28 in the other direction. -/
theorem fastMove_reversed :
    ∃ s, run mouseStep (.start (fun _ => false) (fun _ => false) 1) fastMove = some s ∧
      s.ends = [((-28, 0), (100, 0))] ∧ ¬Conserved s := by
  refine ⟨_, rfl, rfl, fun hends => ?_⟩
  exact absurd (hends ((-28, 0), (100, 0)) (List.mem_singleton_self _)) (by decide)

theorem slowMoves_conserved :
    ∃ s, run mouseStep (.start (fun _ => false) (fun _ => false) 4)
        [.mouseMoved 100 (-3), .mouseMoved 400 2, .interrupt 0x2000, .mouseMoved 9 9, .call] =
        some s ∧
      (Conserved s ↔ Guarded mouseStep Sendable (.start (fun _ => false) (fun _ => false) 4)
        [.mouseMoved 100 (-3), .mouseMoved 400 2, .interrupt 0x2000, .mouseMoved 9 9, .call]) :=
  ⟨_, rfl, ADBMouse.conserved_iff _ _ _ rfl⟩

end SheepShear.Adb
