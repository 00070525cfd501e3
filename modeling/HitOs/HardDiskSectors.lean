import HitOs.HardDisk
import HitOs.Traces
import Mathlib.Tactic.IntervalCases

namespace HitOs

/-!
# Which sectors a hard-disk request is for

A request that `do_hd_request` does not reject is sent to the cylinder, head and sector
of its block in the partition.  A reset and a recalibration that are due come first, each
with an interrupt that calls `do_hd_request` again.
-/

namespace HardDisk

open Drives

/-! ## Two divisions and back -/

/-- What the divisions by the sectors of a track and by the heads leave together. -/
theorem join_split
    (block sect heads : Nat) :
    (block / sect / heads * heads + block / sect % heads) * sect +
        block % sect =
      block := by
  rw [Nat.div_add_mod', Nat.div_add_mod']

/-! ## Geometries and partitions -/

/-- The number of the first sector of a request on its drive. -/
def Disks.address (disks : Disks) (request : Request) : Nat :=
  (disks.hd request.minor).startSect.toNat + request.sector.toNat

/-- Drives with sectors and heads, and partitions that end within 32 bits. -/
structure Disks.Sound (disks : Disks) : Prop where
  sect :
    ∀ dev, dev < disks.nrHd → 1 ≤ (disks.hdInfo dev).sect.toNat
  heads :
    ∀ dev, dev < disks.nrHd →
      1 ≤ (disks.hdInfo dev).head.toNat ∧ (disks.hdInfo dev).head.toNat ≤ 16
  table :
    ∀ minor, minor < 5 * disks.nrHd →
      (disks.hd minor).startSect.toNat + (disks.hd minor).nrSects.toNat < 2 ^ 32

/-- A request as `make_request` adds it to the list of this driver. -/
structure Live (request : Request) : Prop where
  major :
    request.major = 3
  lock :
    request.lock = true
  cmd :
    request.cmd = read ∨ request.cmd = write
  sector :
    request.sector.toNat + 2 < 2 ^ 32

/-- A place is where the sectors of a request are, inside of their partition. -/
structure Addresses
    (disks : Disks)
    (request : Request)
    (place : Place) : Prop where
  dev :
    place.dev = request.minor / 5
  sec :
    1 ≤ place.sec.toNat ∧ place.sec.toNat ≤ (disks.hdInfo place.dev).sect.toNat
  head :
    place.head.toNat < (disks.hdInfo place.dev).head.toNat
  address :
    (place.cyl.toNat * (disks.hdInfo place.dev).head.toNat +
            place.head.toNat) *
          (disks.hdInfo place.dev).sect.toNat +
        place.sec.toNat - 1 =
      disks.address request
  inside :
    ∀ sector, disks.address request ≤ sector →
      sector < disks.address request + 2 →
        (disks.hd request.minor).startSect.toNat ≤ sector ∧
          sector <
            (disks.hd request.minor).startSect.toNat +
              (disks.hd request.minor).nrSects.toNat

variable {disks : Disks} {request other : Request}

/-- A request that passes the test is in the range of its partition. -/
theorem accepted_range
    (live : Live request)
    (accepted : disks.rejects request = false) :
    request.minor < 5 * disks.nrHd ∧
      request.sector.toNat + 2 ≤ (disks.hd request.minor).nrSects.toNat := by
  obtain ⟨device, range⟩ := Bool.or_eq_false_iff.mp accepted
  have notSmaller :
      ¬(disks.hd request.minor).nrSects < request.sector + 2 :=
    of_decide_eq_false range
  refine ⟨Nat.lt_of_not_le (of_decide_eq_false device), ?_⟩
  rw [BitVec.lt_def, BitVec.toNat_add] at notSmaller
  change ¬_ < (request.sector.toNat + 2) % 2 ^ 32 at notSmaller
  rw [Nat.mod_eq_of_lt live.sector] at notSmaller
  exact Nat.le_of_not_lt notSmaller

/-- The block that is divided does not wrap around. -/
theorem toNat_block
    (sound : disks.Sound)
    (live : Live request)
    (accepted : disks.rejects request = false) :
    (request.sector + (disks.hd request.minor).startSect).toNat =
      disks.address request := by
  obtain ⟨device, range⟩ := accepted_range live accepted
  have table := sound.table request.minor device
  rw [BitVec.toNat_add, Nat.mod_eq_of_lt (by omega), Nat.add_comm]
  rfl

theorem addresses_place
    (sound : disks.Sound)
    (live : Live request)
    (accepted : disks.rejects request = false) :
    Addresses disks request (disks.place request) := by
  obtain ⟨device, range⟩ := accepted_range live accepted
  have drive : request.minor / 5 < disks.nrHd := by
    omega
  have sect := sound.sect _ drive
  have heads := sound.heads _ drive
  have block := toNat_block sound live accepted
  have remainder :
      disks.address request % (disks.hdInfo (request.minor / 5)).sect.toNat <
        (disks.hdInfo (request.minor / 5)).sect.toNat :=
    Nat.mod_lt _ sect
  have small := (disks.hdInfo (request.minor / 5)).sect.isLt
  have sec :
      (disks.place request).sec.toNat =
        disks.address request % (disks.hdInfo (request.minor / 5)).sect.toNat +
          1 := by
    unfold Disks.place
    dsimp only
    rw [BitVec.toNat_add, BitVec.toNat_umod, block]
    exact Nat.mod_eq_of_lt (by change _ + 1 < _; omega)
  have head :
      (disks.place request).head.toNat =
        disks.address request / (disks.hdInfo (request.minor / 5)).sect.toNat %
          (disks.hdInfo (request.minor / 5)).head.toNat := by
    unfold Disks.place
    dsimp only
    rw [BitVec.toNat_umod, BitVec.toNat_udiv, block]
  have cyl :
      (disks.place request).cyl.toNat =
        disks.address request / (disks.hdInfo (request.minor / 5)).sect.toNat /
          (disks.hdInfo (request.minor / 5)).head.toNat := by
    unfold Disks.place
    dsimp only
    rw [BitVec.toNat_udiv, BitVec.toNat_udiv, block]
  refine ⟨rfl, ?_, ?_, ?_, ?_⟩
  · change 1 ≤ _ ∧ _ ≤ (disks.hdInfo (request.minor / 5)).sect.toNat
    rw [sec]
    omega
  · rw [head]
    exact Nat.mod_lt _ heads.1
  · rw [sec, head, cyl, ← Nat.add_assoc, Nat.add_sub_cancel]
    exact join_split _ _ _
  · intro sector low high
    unfold Disks.address at low high
    omega

/-- Different sectors of a drive are at different places. -/
theorem place_eq_iff
    (sound : disks.Sound)
    (live : Live request)
    (accepted : disks.rejects request = false)
    (live' : Live other)
    (accepted' : disks.rejects other = false)
    (sameDrive : other.minor / 5 = request.minor / 5) :
    disks.place other = disks.place request ↔
      disks.address other = disks.address request := by
  have here := addresses_place sound live accepted
  have there := addresses_place sound live' accepted'
  constructor
  · intro same
    rw [← there.address, ← here.address, same]
  · intro same
    have blocks :
        other.sector + (disks.hd other.minor).startSect =
          request.sector + (disks.hd request.minor).startSect := by
      apply BitVec.eq_of_toNat_eq
      rw [toNat_block sound live accepted, toNat_block sound live' accepted', same]
    unfold Disks.place
    rw [blocks, sameDrive]

/-! ## Until the command is sent -/

/-- A request as it could be behind NULL. -/
def nothing : Request where
  slot := 0
  dev := 0
  cmd := 0
  errors := 0
  sector := 0
  nrSectors := 0
  lock := false

/-- A drive that is ready and reports no errors. -/
def Answer.good : Answer where
  ready := true
  drq := true
  bad := false
  behind := nothing

/-- A pass or an interrupt of such a drive. -/
structure WellAnswered
    (disks : Disks)
    (event : Event)
    (driver after : Driver) : Prop where
  answered :
    event = .pass .good ∨ event = .interrupt .good
  enabled :
    event.enabled driver
  performed :
    (event.perform disks driver).driver = some after

variable {driver : Driver} {rest : Queue}

/-- The panics of `hd_out` are for drives and heads that there are not. -/
theorem hdOut_good
    {out : HdOut}
    (handler : Handler)
    (drive : out.drive.toNat ≤ 1)
    (head : out.head.toNat ≤ 15) :
    hdOut .good out handler driver = some { driver with doHd := some handler } := by
  have inRange : ¬(1 < out.drive ∨ 15 < out.head) := by
    rw [BitVec.lt_def, BitVec.lt_def]
    exact not_or.mpr ⟨Nat.not_lt.mpr drive, Nat.not_lt.mpr head⟩
  unfold hdOut
  rw [if_neg inRange]
  rfl

/-- What is known of the drive of a request that is not rejected. -/
structure Driven (disks : Disks) (dev : Nat) : Prop where
  number :
    dev ≤ 1
  divides :
    ¬((disks.hdInfo dev).sect = 0 ∨ (disks.hdInfo dev).head = 0)
  heads :
    (disks.hdInfo dev).head.toNat ≤ 16

theorem driven_of_accepted
    (sound : disks.Sound)
    (live : Live request)
    (accepted : disks.rejects request = false) :
    Driven disks (disks.place request).dev := by
  obtain ⟨device, -⟩ := accepted_range live accepted
  have drive : request.minor / 5 < disks.nrHd := by
    omega
  have sect := sound.sect _ drive
  have heads := sound.heads _ drive
  refine ⟨?_, ?_, heads.2⟩
  · change request.minor / 5 ≤ 1
    have most := disks.most
    omega
  · change
      ¬((disks.hdInfo (request.minor / 5)).sect = 0 ∨
        (disks.hdInfo (request.minor / 5)).head = 0)
    rintro (zero | zero)
    · rw [zero] at sect
      exact absurd sect (by decide)
    · rw [zero] at heads
      exact absurd heads.1 (by decide)

theorem toNat_drive
    {dev : Nat}
    (driven : Driven disks dev) :
    (BitVec.ofNat 32 dev).toNat ≤ 1 := by
  have number := driven.number
  rw [BitVec.toNat_ofNat, Nat.mod_eq_of_lt (by omega)]
  exact number

section Serving

variable
  (sound : disks.Sound)
  (live : Live request)
  (accepted : disks.rejects request = false)
  (calling : driver.calling = true)
  (waits : driver.queue = request :: rest)

include live accepted waits in
theorem doHdRequest_eq_serve
    (answer : Answer) :
    doHdRequest disks answer driver = serve disks answer request driver := by
  unfold doHdRequest
  rw [waits]
  simp only [live.major, live.lock, accepted]
  rfl

include sound live accepted waits calling in
/-- A reset that is due is done with one interrupt. -/
theorem wellAnswered_reset
    (reset : driver.reset = true) :
    Traces (WellAnswered disks) [.pass .good, .interrupt .good] driver
      { driver with
        reset := false
        recalibrate := true
        doHd := none
        calling := true } := by
  have driven := driven_of_accepted sound live accepted
  have heads := driven.heads
  have positive : (disks.hdInfo (disks.place request).dev).head.toNat ≠ 0 :=
    fun zero => driven.divides (Or.inr (BitVec.eq_of_toNat_eq zero))
  have last :
      ((disks.hdInfo (disks.place request).dev).head - 1).toNat ≤ 15 := by
    rw [BitVec.toNat_sub]
    change (2 ^ 32 - 1 + _) % 2 ^ 32 ≤ 15
    omega
  have pass :
      (doHdRequest disks .good driver).driver =
        some
          { driver with
            reset := false
            recalibrate := true
            doHd := some .recalIntr
            calling := false } := by
    rw [doHdRequest_eq_serve live accepted waits]
    unfold serve
    dsimp only
    rw [if_neg driven.divides, if_pos reset]
    exact hdOut_good .recalIntr (toNat_drive driven) last
  exact .next ⟨Or.inl rfl, calling, pass⟩
    (.next ⟨Or.inr rfl, rfl, rfl⟩ (.done _))

include sound live accepted waits calling in
theorem wellAnswered_recalibrate
    (noReset : driver.reset = false)
    (recalibrate : driver.recalibrate = true) :
    Traces (WellAnswered disks) [.pass .good, .interrupt .good] driver
      { driver with
        recalibrate := false
        doHd := none
        calling := true } := by
  have driven := driven_of_accepted sound live accepted
  have pass :
      (doHdRequest disks .good driver).driver =
        some
          { driver with
            recalibrate := false
            doHd := some .recalIntr
            calling := false } := by
    rw [doHdRequest_eq_serve live accepted waits]
    unfold serve
    dsimp only
    rw [if_neg driven.divides, if_neg (Bool.eq_false_iff.mp noReset),
      if_pos recalibrate]
    exact hdOut_good .recalIntr (toNat_drive driven) (Nat.zero_le 15)
  exact .next ⟨Or.inl rfl, calling, pass⟩
    (.next ⟨Or.inr rfl, rfl, rfl⟩ (.done _))

include sound live accepted waits calling in
/-- With two interrupts at most, nothing is due any more. -/
theorem wellAnswered_due :
    ∃ events before,
      Traces (WellAnswered disks) events driver before ∧
        before.queue = driver.queue ∧ before.calling = true ∧
        before.reset = false ∧ before.recalibrate = false := by
  cases reset : driver.reset with
  | true =>
    have first :=
      wellAnswered_reset sound live accepted calling waits reset
    exact ⟨_, _,
      first.append
        (wellAnswered_recalibrate sound live accepted rfl waits rfl rfl),
      rfl, rfl, rfl, rfl⟩
  | false =>
    cases recalibrate : driver.recalibrate with
    | true =>
      exact ⟨_, _,
        wellAnswered_recalibrate sound live accepted calling waits reset
          recalibrate,
        rfl, rfl, reset, rfl⟩
    | false =>
      exact ⟨[], driver, .done driver, rfl, calling, reset, recalibrate⟩

include live accepted waits in
/-- Whatever the hardware answers, only one command moves data: the one for the place. -/
theorem sent_eq_out
    {answer : Answer} {out : HdOut}
    (sent : out ∈ (doHdRequest disks answer driver).outs)
    (moves : out.cmd = winRead ∨ out.cmd = winWrite) :
    out = (disks.place request).out request out.cmd := by
  have only {one : HdOut} (found : out ∈ [one]) : out = one :=
    List.mem_singleton.mp found
  have noMove {one : HdOut} (found : out ∈ [one])
      (other : one.cmd ≠ winRead ∧ one.cmd ≠ winWrite) : False := by
    rw [only found] at moves
    exact moves.elim other.1 other.2
  rw [doHdRequest_eq_serve live accepted waits] at sent
  unfold serve at sent
  dsimp only at sent
  split at sent
  · cases sent
  split at sent
  · exact (noMove sent
      (by decide : winSpecify ≠ winRead ∧ winSpecify ≠ winWrite)).elim
  split at sent
  · exact (noMove sent
      (by decide : winRestore ≠ winRead ∧ winRestore ≠ winWrite)).elim
  split at sent
  · unfold writeCommand at sent
    split at sent
    · rw [only sent]
      rfl
    · split at sent
      · rw [only sent]
        rfl
      · rw [only sent]
        rfl
  split at sent
  · rw [only sent]
    rfl
  · cases sent

include sound live accepted waits in
/-- When nothing is due, the command is sent at once. -/
theorem outs_of_ready
    (noReset : driver.reset = false)
    (noRecalibrate : driver.recalibrate = false) :
    ∃ cmd, (cmd = winRead ∨ cmd = winWrite) ∧
      (doHdRequest disks .good driver).outs = [(disks.place request).out request cmd] ∧
      (doHdRequest disks .good driver).driver ≠ none := by
  have driven := driven_of_accepted sound live accepted
  have heads := (addresses_place sound live accepted).head
  have inRange : (disks.place request).head.toNat ≤ 15 := by
    have most := driven.heads
    omega
  have accepts (cmd : Nat) (handler : Handler) (other : Driver) :
      hdOut .good ((disks.place request).out request cmd) handler other =
        some { other with doHd := some handler } :=
    hdOut_good handler (toNat_drive driven) inRange
  have served :
      serve disks .good request driver =
        if request.cmd = write then
          writeCommand .good ((disks.place request).out request winWrite) driver
        else if request.cmd = read then
          command .good ((disks.place request).out request winRead) .readIntr
            driver
        else
          .stopped := by
    unfold serve
    dsimp only
    rw [if_neg driven.divides, if_neg (Bool.eq_false_iff.mp noReset),
      if_neg (Bool.eq_false_iff.mp noRecalibrate)]
  rw [doHdRequest_eq_serve live accepted waits, served]
  rcases live.cmd with reads | writes
  · rw [if_neg (by rw [reads]; decide), if_pos reads]
    refine ⟨winRead, Or.inl rfl, rfl, ?_⟩
    unfold command
    rw [accepts]
    exact Option.some_ne_none _
  · rw [if_pos writes]
    unfold writeCommand
    rw [accepts]
    exact ⟨winWrite, Or.inr rfl, rfl, Option.some_ne_none _⟩

end Serving

/--
A request is rejected, or a command to read or write is sent for the place of its
sectors, at the latest after a reset and a recalibration.
-/
inductive Settled
    (disks : Disks)
    (request : Request)
    (rest : Queue)
    (driver : Driver) : Prop where
  | rejected
      (outcome :
        doHdRequest disks .good driver =
          { driver := some { driver with queue := rest }
            accesses := [.failed request]
            outs := [] })
  | issued
      {events : List Event} {before : Driver} {place : Place} {cmd : Nat}
      (due : Traces (WellAnswered disks) events driver before)
      (still : before.queue = request :: rest)
      (calling : before.calling = true)
      (addresses : Addresses disks request place)
      (moves : cmd = winRead ∨ cmd = winWrite)
      (outs : (doHdRequest disks .good before).outs = [place.out request cmd])
      (goesOn : (doHdRequest disks .good before).driver ≠ none)

/-- `do_hd_request` addresses the sectors of its current request. -/
structure Addressed
    (disks : Disks)
    (request : Request)
    (rest : Queue)
    (driver : Driver) : Prop where
  settled :
    Settled disks request rest driver
  /-- Whatever the hardware answers, no command is for other sectors. -/
  sent :
    ∀ answer out, out ∈ (doHdRequest disks answer driver).outs →
      out.cmd = winRead ∨ out.cmd = winWrite →
        ∃ place, Addresses disks request place ∧ out = place.out request out.cmd
  /-- Different sectors of a drive have different places. -/
  distinct :
    ∀ other, Live other →
      disks.rejects request = false → disks.rejects other = false →
      other.minor / 5 = request.minor / 5 →
      disks.address other ≠ disks.address request →
        disks.place other ≠ disks.place request

theorem requests_addressed
    (disks : Disks)
    (sound : disks.Sound)
    (driver : Driver)
    (request : Request)
    (rest : Queue)
    (live : Live request)
    (calling : driver.calling = true)
    (waits : driver.queue = request :: rest) :
    Addressed disks request rest driver := by
  cases rejected : disks.rejects request with
  | true =>
    have outcome (answer : Answer) :
        doHdRequest disks answer driver =
          { driver := some { driver with queue := rest }
            accesses := [.failed request]
            outs := [] } := by
      unfold doHdRequest
      rw [waits]
      simp only [live.major, live.lock, rejected]
      rfl
    refine ⟨.rejected (outcome .good), ?_, ?_⟩
    · intro answer out sent
      rw [outcome] at sent
      cases sent
    · intro other _ accepted
      exact nomatch rejected.symm.trans accepted
  | false =>
    refine ⟨?_, ?_, ?_⟩
    · obtain ⟨events, before, due, queue, ready, noReset, noRecalibrate⟩ :=
        wellAnswered_due sound live rejected calling waits
      have still := queue.trans waits
      obtain ⟨cmd, moves, outs, goesOn⟩ :=
        outs_of_ready sound live rejected still noReset noRecalibrate
      exact .issued due still ready
        (addresses_place sound live rejected) moves outs goesOn
    · intro answer out sent moves
      exact ⟨_, addresses_place sound live rejected,
        sent_eq_out live rejected waits sent moves⟩
    · intro other live' _ accepted' sameDrive different same
      exact different
        ((place_eq_iff sound live rejected live' accepted' sameDrive).mp same)

/-- A drive of 16 heads and 17 sectors with one partition. -/
def oneDrive : Disks where
  nrHd := 1
  hd := fun minor =>
    if minor = 0 then { startSect := 0, nrSects := 27200 }
    else if minor = 1 then { startSect := 100, nrSects := 20000 }
    else { startSect := 0, nrSects := 0 }
  hdInfo := fun _ => { head := 16, sect := 17, cyl := 100 }
  most := by decide

theorem sound_oneDrive : oneDrive.Sound where
  sect _ _ :=
    (by decide : 1 ≤ (17#32).toNat)
  heads _ _ :=
    (by decide : 1 ≤ (16#32).toNat ∧ (16#32).toNat ≤ 16)
  table := by
    intro minor inRange
    change minor < 5 at inRange
    interval_cases minor <;> decide

/-- A request for block 5 of the partition. -/
def fifthBlock : Request where
  slot := 31
  dev := 0x301
  cmd := 0
  errors := 0
  sector := 10
  nrSectors := 2
  lock := true

theorem requests_addressed_fifthBlock :
    Addressed oneDrive fifthBlock []
      { queue := [fifthBlock]
        reset := true
        recalibrate := true
        doHd := none
        calling := true } :=
  requests_addressed oneDrive sound_oneDrive _ fifthBlock []
    ⟨rfl, rfl, Or.inl rfl, by decide⟩ rfl rfl

end HardDisk

end HitOs
