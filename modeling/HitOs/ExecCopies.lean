import HitOs.Execve

namespace HitOs

/-!
# Copying the arguments

`copy_strings` writes from the end of the argument pages down.  Whatever strings it is
given, they stand packed where it stops, if they fit and every page is gotten.
-/

namespace Execve

open ByteStrings

/-- `offset` and `pag` belong to `p`, or a page is going to be gotten. -/
structure Copy.Ready (copy : Copy) : Prop where
  inside : copy.p ≤ maxArgPages * pageSize
  cursor :
    copy.offset = 0 ∨
      copy.offset = copy.p % pageSize ∧ copy.pag = some (copy.p / pageSize) ∧
        (copy.page (copy.p / pageSize)).isSome

/-- Bytes have been copied to where `p` was. -/
structure Copied (copy : Copy) (xs : List Byte) (after : Copy) : Prop where
  ready : after.Ready
  place : after.p + xs.length = copy.p
  holds : Holds (byteAt after.page) after.p (xs.map some)
  keeps :
    ∀ a, copy.p ≤ a → ∀ c, byteAt copy.page a = some c → byteAt after.page a = some c

/-- The page of `p` is there, and `pag` and `offset` are those of `p`. -/
structure Copy.Turned (copy : Copy) (page : Page) : Prop where
  offset : copy.offset = copy.p % pageSize
  pag : copy.pag = some (copy.p / pageSize)
  opened : copy.page (copy.p / pageSize) = some page

namespace Copied

variable {copy middle after : Copy} {xs ys : List Byte}

theorem nil (ready : copy.Ready) : Copied copy [] copy :=
  ⟨ready, rfl, rfl, fun _ _ _ same => same⟩

/-- What is copied later stands below. -/
theorem trans
    (first : Copied copy ys middle)
    (second : Copied middle xs after) :
    Copied copy (xs ++ ys) after := by
  have place := first.place
  have place' := second.place
  have stays : Holds (byteAt after.page) middle.p (ys.map some) := by
    have holds := first.holds
    rw [holds_iff] at holds ⊢
    intro i inside
    have there := holds i inside
    rw [List.getElem_map] at there ⊢
    exact second.keeps _ (Nat.le_add_right _ _) _ there
  refine ⟨second.ready, ?_, ?_, ?_⟩
  · rw [List.length_append]
    omega
  · rw [List.map_append, holds_append, List.length_map, place']
    exact ⟨second.holds, stays⟩
  · intro a above c there
    exact second.keeps a (by omega) c (first.keeps a above c there)

end Copied

namespace Copy

variable {free : Nat → Bool} {copy middle after : Copy}

/-- A page that is neither there nor to be had. -/
def Missing (free : Nat → Bool) (page : Pages) (number : Nat) : Prop :=
  page number = none ∧ free number = false

/-- One of the pages for so many bytes below `p` is missing. -/
def Blocked (free : Nat → Bool) (page : Pages) (p length : Nat) : Prop :=
  ∃ a, p - length ≤ a ∧ a < p ∧ Missing free page (a / pageSize)

/-- No page has been taken away, and none that is missing has come. -/
def KeepsGaps (free : Nat → Bool) (copy after : Copy) : Prop :=
  ∀ number, Missing free after.page number ↔ Missing free copy.page number

theorem KeepsGaps.trans
    (first : KeepsGaps free copy middle)
    (second : KeepsGaps free middle after) :
    KeepsGaps free copy after :=
  fun number => (second number).trans (first number)

/-! ## One byte -/

/-- The page of `p` is gotten where the code takes a new one, or is the one before. -/
theorem turn_spec
    (gets : ¬ Missing free copy.page (copy.p / pageSize))
    (inside : copy.p < maxArgPages * pageSize)
    (cursor :
      copy.offset = 0 ∨
        copy.offset = copy.p % pageSize + 1 ∧
          copy.pag = some (copy.p / pageSize) ∧
          (copy.page (copy.p / pageSize)).isSome) :
    ∃ turned page,
      copy.turn free = .ok turned ∧ turned.p = copy.p ∧
        turned.Turned page ∧ KeepsGaps free copy turned ∧
        ∀ a c, byteAt copy.page a = some c →
          byteAt turned.page a = some c := by
  have number : ¬ maxArgPages ≤ copy.p / pageSize :=
    Nat.not_le.mpr (Nat.div_lt_of_lt_mul (Nat.mul_comm _ _ ▸ inside))
  rcases cursor with zero | ⟨offset, pag, opened⟩
  · unfold turn
    rw [zero]
    dsimp only
    rw [if_neg number]
    cases there : copy.page (copy.p / pageSize) with
    | some page =>
      exact ⟨_, page, rfl, rfl, ⟨rfl, rfl, there⟩, fun _ => Iff.rfl,
        fun _ _ same => same⟩
    | none =>
      have gotten : free (copy.p / pageSize) = true := by
        rw [← Bool.not_eq_false]
        exact fun refused => gets ⟨there, refused⟩
      dsimp only
      rw [if_pos gotten]
      refine ⟨_, fun _ => 0, rfl, rfl, ⟨rfl, rfl, Function.update_self _ _ _⟩, ?_, ?_⟩
      · intro number
        unfold Missing
        dsimp only
        by_cases same : number = copy.p / pageSize
        · subst same
          simp [gotten]
        · rw [Function.update_of_ne same]
      intro a c held
      unfold byteAt at held ⊢
      have other : a / pageSize ≠ copy.p / pageSize := by
        intro same
        rw [same, there] at held
        cases held
      dsimp only
      rw [Function.update_of_ne other]
      exact held
  · obtain ⟨page, opened⟩ := Option.isSome_iff_exists.mp opened
    unfold turn
    rw [offset]
    exact ⟨_, page, rfl, rfl, ⟨rfl, pag, opened⟩, fun _ => Iff.rfl,
      fun _ _ same => same⟩

/-- Without a page the copy ends. -/
theorem turn_missing
    (missing : Missing free copy.page (copy.p / pageSize))
    (inside : copy.p < maxArgPages * pageSize)
    (cursor :
      copy.offset = 0 ∨
        copy.offset = copy.p % pageSize + 1 ∧
          copy.pag = some (copy.p / pageSize) ∧
          (copy.page (copy.p / pageSize)).isSome) :
    copy.turn free = .error (.noMemory copy.page) := by
  obtain ⟨gap, refused⟩ := missing
  have number : ¬ maxArgPages ≤ copy.p / pageSize :=
    Nat.not_le.mpr (Nat.div_lt_of_lt_mul (Nat.mul_comm _ _ ▸ inside))
  rcases cursor with zero | ⟨_, _, opened⟩
  · unfold turn
    rw [zero]
    dsimp only
    rw [if_neg number, gap]
    dsimp only
    rw [if_neg (Bool.eq_false_iff.mp refused)]
  · rw [gap] at opened
    cases opened

/-- Two addresses in one page at one offset are the same. -/
theorem eq_of_page
    {a b : Nat}
    (page : a / pageSize = b / pageSize)
    (offset : a % pageSize = b % pageSize) :
    a = b := by
  rw [← Nat.div_add_mod a pageSize, ← Nat.div_add_mod b pageSize, page, offset]

theorem put_spec
    {page : Page}
    (turned : copy.Turned page)
    (inside : copy.p < maxArgPages * pageSize)
    (free : Nat → Bool)
    (c : Byte) :
    ∃ after,
      copy.put c = .ok after ∧ after.Ready ∧ after.p = copy.p ∧
        KeepsGaps free copy after ∧
        byteAt after.page copy.p = some c ∧
        ∀ a x, a ≠ copy.p → byteAt copy.page a = some x →
          byteAt after.page a = some x := by
  obtain ⟨offset, pag, opened⟩ := turned
  unfold put
  rw [pag]
  dsimp only
  rw [opened]
  refine ⟨_, rfl, ⟨Nat.le_of_lt inside, .inr ⟨offset, rfl, ?_⟩⟩, rfl, ?_, ?_, ?_⟩
  · dsimp only
    rw [Function.update_self]
    rfl
  · intro number
    unfold Missing
    dsimp only
    by_cases same : number = copy.p / pageSize
    · subst same
      simp [opened]
    · rw [Function.update_of_ne same]
  · unfold byteAt
    dsimp only
    rw [Function.update_self, offset, Option.map_some, Function.update_self]
  · intro a x other held
    unfold byteAt at held ⊢
    dsimp only
    by_cases same : a / pageSize = copy.p / pageSize
    case pos =>
      rw [same, opened] at held
      have elsewhere : a % pageSize ≠ copy.p % pageSize :=
        fun offset => other (eq_of_page same offset)
      rw [same, Function.update_self, Option.map_some, offset,
        Function.update_of_ne elsewhere]
      exact held
    case neg =>
      rw [Function.update_of_ne same]
      exact held

/-- One byte further down the cursor still belongs to `p`. -/
theorem Ready.below
    {p : Nat}
    (ready : copy.Ready)
    (next : copy.p = p + 1) :
    p < maxArgPages * pageSize ∧
      (copy.offset = 0 ∨
        copy.offset = p % pageSize + 1 ∧
          copy.pag = some (p / pageSize) ∧
          (copy.page (p / pageSize)).isSome) := by
  obtain ⟨inside, cursor⟩ := ready
  rw [next] at inside cursor
  refine ⟨inside, ?_⟩
  rcases cursor with zero | ⟨offset, pag, opened⟩
  · exact .inl zero
  · rcases Nat.eq_zero_or_pos ((p + 1) % pageSize) with first | later
    · exact .inl (offset.trans first)
    · have same : (p + 1) / pageSize = p / pageSize := by
        unfold pageSize at later ⊢
        omega
      have more : (p + 1) % pageSize = p % pageSize + 1 := by
        unfold pageSize at later ⊢
        omega
      rw [same] at pag opened
      exact .inr ⟨offset.trans more, pag, opened⟩

theorem byte_zero (isZero : copy.p = 0) (c : Byte) :
    copy.byte free c = .error .fault := by
  unfold byte
  rw [isZero]

theorem byte_missing
    {p : Nat}
    (ready : copy.Ready)
    (next : copy.p = p + 1)
    (missing : Missing free copy.page (p / pageSize))
    (c : Byte) :
    copy.byte free c = .error (.noMemory copy.page) := by
  obtain ⟨inside, cursor⟩ := ready.below next
  have stops : turn free { copy with p := p } = .error (.noMemory copy.page) :=
    turn_missing missing inside cursor
  unfold byte
  rw [next]
  dsimp only
  rw [stops]

theorem byte_spec
    {p : Nat}
    (ready : copy.Ready)
    (next : copy.p = p + 1)
    (gets : ¬ Missing free copy.page (p / pageSize))
    (c : Byte) :
    ∃ after,
      copy.byte free c = .ok after ∧ Copied copy [c] after ∧
        KeepsGaps free copy after := by
  obtain ⟨inside, cursor⟩ := ready.below next
  have turning :
      ∃ turned page,
        turn free { copy with p := p } = .ok turned ∧ turned.p = p ∧
          turned.Turned page ∧
          KeepsGaps free { copy with p := p } turned ∧
          ∀ a c, byteAt copy.page a = some c → byteAt turned.page a = some c :=
    turn_spec gets inside cursor
  obtain ⟨turned, page, turns, place, isTurned, gaps, kept⟩ := turning
  obtain ⟨after, puts, ready, stays, gaps', held, keeps⟩ :=
    put_spec isTurned (place ▸ inside) free c
  have here : after.p = p := stays.trans place
  refine ⟨after, ?_, ⟨ready, ?_, ?_, ?_⟩, fun number =>
    (gaps' number).trans (gaps number)⟩
  · unfold byte
    rw [next]
    dsimp only
    rw [turns]
    exact puts
  · rw [here, next]
    rfl
  · refine holds_singleton.mpr ?_
    rw [stays]
    exact held
  · intro a above x there
    rw [next] at above
    exact keeps a x (by omega) (kept a x there)

/-! ## Many bytes -/

/-- Bytes are copied one after the other, the last one first. -/
def pour (free : Nat → Bool) : List Byte → Copy → Except Stop Copy
  | [], copy => .ok copy
  | c :: xs, copy =>
    match pour free xs copy with
    | .ok copy => copy.byte free c
    | .error stop => .error stop

theorem pour_append {xs ys : List Byte} :
    copy.pour free (xs ++ ys) =
      match copy.pour free ys with
      | .ok copy => copy.pour free xs
      | .error stop => .error stop := by
  induction xs with
  | nil =>
    rw [List.nil_append]
    cases copy.pour free ys with
    | ok copy =>
      rfl
    | error stop =>
      rfl
  | cons c xs inductionHypothesis =>
    rw [List.cons_append, pour, inductionHypothesis]
    cases copy.pour free ys with
    | ok copy =>
      rfl
    | error stop =>
      rfl

/-- The bytes of a string are poured. -/
theorem bytes_eq_pour {source : Nat → Byte} {start len : Nat} :
    copy.bytes free source start len =
      copy.pour free (Ring.load source start len) := by
  induction len generalizing copy with
  | zero =>
    rfl
  | succ len inductionHypothesis =>
    have last : copy.pour free (Ring.load source (start + len) 1) =
        copy.byte free (source (start + len)) :=
      rfl
    rw [Ring.load_add, pour_append, last, bytes]
    cases copy.byte free (source (start + len)) with
    | ok middle =>
      exact inductionHypothesis
    | error stop =>
      rfl

/-- Bytes that fit are copied, if no page for them is missing. -/
theorem pour_spec
    {xs : List Byte}
    (ready : copy.Ready)
    (fits : xs.length ≤ copy.p)
    (gets : ¬ Blocked free copy.page copy.p xs.length) :
    ∃ after,
      copy.pour free xs = .ok after ∧ Copied copy xs after ∧
        KeepsGaps free copy after := by
  induction xs with
  | nil =>
    exact ⟨copy, rfl, .nil ready, fun _ => Iff.rfl⟩
  | cons c xs inductionHypothesis =>
    rw [List.length_cons] at fits gets
    obtain ⟨middle, pours, copied, gaps⟩ :=
      inductionHypothesis (by omega) fun ⟨a, above, below, missing⟩ =>
        gets ⟨a, by omega, below, missing⟩
    have place := copied.place
    have next : middle.p = middle.p - 1 + 1 := by omega
    obtain ⟨after, stores, stored, gaps'⟩ :=
      byte_spec copied.ready next
        (fun missing =>
          gets ⟨middle.p - 1, by omega, by omega, (gaps _).mp missing⟩)
        c
    refine ⟨after, ?_, copied.trans stored, gaps.trans gaps'⟩
    rw [pour, pours]
    exact stores

/-- If a page is missing for the bytes that fit, the copy ends without memory. -/
theorem pour_blocked
    {xs : List Byte}
    (ready : copy.Ready)
    (blocked : Blocked free copy.page copy.p xs.length) :
    ∃ page, copy.pour free xs = .error (.noMemory page) := by
  induction xs with
  | nil =>
    obtain ⟨a, above, below, _⟩ := blocked
    rw [List.length_nil] at above
    omega
  | cons c xs inductionHypothesis =>
    by_cases before : Blocked free copy.page copy.p xs.length
    · obtain ⟨page, pours⟩ := inductionHypothesis before
      refine ⟨page, ?_⟩
      rw [pour, pours]
    · obtain ⟨a, above, below, missing⟩ := blocked
      rw [List.length_cons] at above
      have exactly : ¬ copy.p - xs.length ≤ a := fun inside =>
        before ⟨a, inside, below, missing⟩
      obtain ⟨middle, pours, copied, gaps⟩ :=
        pour_spec ready (by omega) before
      have place := copied.place
      refine ⟨middle.page, ?_⟩
      rw [pour, pours]
      have next : middle.p = a + 1 := by omega
      exact byte_missing copied.ready next ((gaps _).mpr missing) c

/-- Bytes that do not fit get to a page that does not exist. -/
theorem pour_fault
    {xs : List Byte}
    (ready : copy.Ready)
    (more : copy.p < xs.length)
    (gets : ¬ Blocked free copy.page copy.p xs.length) :
    copy.pour free xs = .error .fault := by
  induction xs with
  | nil =>
    exact absurd more (Nat.not_lt_zero _)
  | cons c xs inductionHypothesis =>
    rw [List.length_cons] at more gets
    have before : ¬ Blocked free copy.page copy.p xs.length :=
      fun ⟨a, above, below, missing⟩ =>
        gets ⟨a, by omega, below, missing⟩
    rw [pour]
    rcases Nat.lt_or_ge copy.p xs.length with still | fits
    · rw [inductionHypothesis still before]
    · obtain ⟨middle, pours, copied, _⟩ := pour_spec ready fits before
      have place := copied.place
      rw [pours]
      exact byte_zero (by omega) c

end Copy

/-- Strings that the caller has in its segment, with a table of pointers to them. -/
def Caller.HasVector
    (caller : Caller)
    (argv : Nat)
    (strings : List (List Byte)) : Prop :=
  argv = 0 ∧ strings = [] ∨
    argv ≠ 0 ∧ IsVector caller.bytes argv strings ∧
      argv + 4 * (strings.length + 1) ≤ caller.limit ∧
      ∀ i (inside : i < strings.length),
        getLong caller.bytes (argv + 4 * i) + strings[i].length < caller.limit

section Vectors

variable {free : Nat → Bool} {caller : Caller} {argv : Nat}
variable {strings : List (List Byte)}

theorem countFrom_eq
    {bytes : Nat → Byte} {room first rest : Nat}
    (isVector : IsVector bytes argv strings)
    (all : first + rest = strings.length)
    (enough : rest < room) :
    countFrom bytes room (argv + 4 * first) = some rest := by
  induction rest generalizing first room with
  | zero =>
    obtain ⟨room, rfl⟩ :=
      Nat.exists_eq_succ_of_ne_zero (Nat.ne_of_gt enough)
    have last := isVector.last
    rw [← all, Nat.add_zero] at last
    unfold countFrom
    rw [if_pos last]
  | succ rest inductionHypothesis =>
    obtain ⟨room, rfl⟩ :=
      Nat.exists_eq_succ_of_ne_zero (by omega : room ≠ 0)
    have another := isVector.pointers first (by omega)
    have next : argv + 4 * first + 4 = argv + 4 * (first + 1) := by
      omega
    unfold countFrom
    rw [if_neg another, next, inductionHypothesis (by omega) (by omega)]
    rfl

/-- `count` counts the strings. -/
theorem Caller.HasVector.count (has : caller.HasVector argv strings) :
    caller.count argv = some strings.length := by
  unfold Caller.count
  rcases has with ⟨null, rfl⟩ | ⟨table, isVector, fits, _⟩
  · rw [if_pos null]
    rfl
  · rw [if_neg table]
    have counted : countFrom caller.bytes ((caller.limit - argv) / 4)
        (argv + 4 * 0) = some strings.length :=
      countFrom_eq isVector (Nat.zero_add _) (by omega)
    exact counted

/-- Strings in a segment, with pointers to them in another. -/
structure Offers
    (pointers space : Space)
    (argv : Nat)
    (strings : List (List Byte)) : Prop where
  pointer :
    ∀ i, i < strings.length → getLong pointers.bytes (argv + 4 * i) ≠ 0
  pointed :
    ∀ i (inside : i < strings.length),
      IsString space.bytes (getLong pointers.bytes (argv + 4 * i)) strings[i]
  ends :
    ∀ i (inside : i < strings.length),
      getLong pointers.bytes (argv + 4 * i) + strings[i].length < space.limit

theorem Caller.HasVector.offers (has : caller.HasVector argv strings) :
    Offers caller.space caller.space argv strings := by
  rcases has with ⟨_, rfl⟩ | ⟨_, isVector, _, ends⟩
  · exact
      ⟨fun i inside => absurd inside (Nat.not_lt_zero i),
        fun i inside => absurd inside (Nat.not_lt_zero i),
        fun i inside => absurd inside (Nat.not_lt_zero i)⟩
  · exact ⟨isVector.pointers, isVector.pointed, ends⟩

section Entries

variable {pointers space : Space} {number : Nat} {copy : Copy}

theorem packed_take (inside : number < strings.length) :
    packed (strings.take (number + 1)) =
      packed (strings.take number) ++ (strings[number] ++ [0]) := by
  rw [List.take_succ_eq_append_getElem inside, packed_append, packed_singleton]

/-- A string that is passed is measured. -/
theorem Offers.measured
    (offers : Offers pointers space argv strings)
    (inside : number < strings.length) :
    stringLength space.bytes
        (space.limit - getLong pointers.bytes (argv + 4 * number))
        (getLong pointers.bytes (argv + 4 * number)) =
      some (strings[number].length + 1) := by
  have below := offers.ends number inside
  exact stringLength_eq (offers.pointed number inside) (by omega)

theorem Offers.loaded
    (offers : Offers pointers space argv strings)
    (inside : number < strings.length) :
    Ring.load space.bytes (getLong pointers.bytes (argv + 4 * number))
        (strings[number].length + 1) =
      strings[number] ++ [0] := by
  have holds := (offers.pointed number inside).holds
  unfold Holds at holds
  rw [List.length_append, List.length_singleton] at holds
  exact holds

/-- The strings up to a number are poured, the last one first. -/
theorem Offers.strings_eq_pour
    (offers : Offers pointers space argv strings)
    (upTo : number ≤ strings.length) :
    Copy.strings free pointers space argv number copy =
      copy.pour free (packed (strings.take number)) := by
  induction number generalizing copy with
  | zero =>
    rfl
  | succ number inductionHypothesis =>
    have inside : number < strings.length := upTo
    unfold Copy.strings
    dsimp only
    rw [if_neg (offers.pointer number inside), offers.measured inside,
      packed_take inside, Copy.pour_append]
    dsimp only
    rw [Copy.bytes_eq_pour, offers.loaded inside]
    cases copy.pour free (strings[number] ++ [0]) with
    | ok middle =>
      exact inductionHypothesis (Nat.le_of_lt inside)
    | error stop =>
      rfl

end Entries

/-- With `fs` left alone the segment of the kernel does not matter. -/
theorem copyStrings_eq
    (kernel : Space)
    (argc : Nat)
    (page : Pages)
    (p : Nat) :
    copyStrings free caller argc argv page p =
      copyStringsFrom free kernel caller.space 0 argc argv page p :=
  rfl

/-! ## All strings -/

section All

variable {kernel user pointers space : Space} {fromKmem p : Nat} {page : Pages}

/-- The segments of the pointers and of the strings. -/
def pointersFrom (kernel user : Space) (fromKmem : Nat) : Space :=
  if fromKmem = 1 ∨ fromKmem = 2 then kernel else user

def spaceFrom (kernel user : Space) (fromKmem : Nat) : Space :=
  if fromKmem = 2 then kernel else user

/-- `copy_strings` pours all strings, unless there is no room from the beginning. -/
theorem copyStringsFrom_eq
    (offers :
      Offers (pointersFrom kernel user fromKmem)
        (spaceFrom kernel user fromKmem) argv strings) :
    copyStringsFrom free kernel user fromKmem strings.length argv page p =
      if p = 0 then
        .ok (page, 0)
      else
        match Copy.pour free (packed strings) ⟨page, p, none, 0⟩ with
        | .ok copy => .ok (copy.page, copy.p)
        | .error (.noMemory page) => .ok (page, 0)
        | .error stop => .error stop := by
  have all :
      Copy.strings free (pointersFrom kernel user fromKmem)
          (spaceFrom kernel user fromKmem) argv strings.length
          ⟨page, p, none, 0⟩ =
        Copy.pour free (packed strings) ⟨page, p, none, 0⟩ := by
    rw [offers.strings_eq_pour (Nat.le_refl _), List.take_length]
  unfold pointersFrom spaceFrom at all
  unfold copyStringsFrom
  dsimp only
  exact all ▸ rfl

/-- Strings that fit are stored where `p` goes, if no page is missing. -/
theorem copyStringsFrom_spec
    (offers :
      Offers (pointersFrom kernel user fromKmem)
        (spaceFrom kernel user fromKmem) argv strings)
    (inside : p ≤ maxArgPages * pageSize)
    (room : (packed strings).length ≤ p)
    (gets : ¬ Copy.Blocked free page p (packed strings).length) :
    ∃ page',
      copyStringsFrom free kernel user fromKmem strings.length argv page p =
          .ok (page', p - (packed strings).length) ∧
        Holds (byteAt page') (p - (packed strings).length)
          ((packed strings).map some) ∧
        (∀ a, p ≤ a → ∀ c, byteAt page a = some c → byteAt page' a = some c) ∧
        ∀ number,
          Copy.Missing free page' number ↔ Copy.Missing free page number := by
  rw [copyStringsFrom_eq offers]
  rcases Nat.eq_zero_or_pos p with rfl | isSome
  · have nothing : packed strings = [] :=
      List.length_eq_zero_iff.mp (Nat.le_zero.mp room)
    rw [nothing]
    exact ⟨page, rfl, rfl, fun _ _ _ same => same, fun _ => Iff.rfl⟩
  · have ready : (⟨page, p, none, 0⟩ : Copy).Ready := ⟨inside, .inl rfl⟩
    obtain ⟨after, pours, copied, gaps⟩ := Copy.pour_spec ready room gets
    have place : after.p = p - (packed strings).length :=
      Nat.eq_sub_of_add_eq copied.place
    refine ⟨after.page, ?_, place ▸ copied.holds, copied.keeps, gaps⟩
    rw [if_neg (Nat.ne_of_gt isSome), pours, ← place]

/-- A page that is missing ends the copy with nothing. -/
theorem copyStringsFrom_blocked
    (offers :
      Offers (pointersFrom kernel user fromKmem)
        (spaceFrom kernel user fromKmem) argv strings)
    (inside : p ≤ maxArgPages * pageSize)
    (blocked : Copy.Blocked free page p (packed strings).length) :
    ∃ page',
      copyStringsFrom free kernel user fromKmem strings.length argv page p =
        .ok (page', 0) := by
  rw [copyStringsFrom_eq offers]
  by_cases isZero : p = 0
  · rw [if_pos isZero]
    exact ⟨page, rfl⟩
  · have ready : (⟨page, p, none, 0⟩ : Copy).Ready := ⟨inside, .inl rfl⟩
    obtain ⟨page', pours⟩ := Copy.pour_blocked ready blocked
    rw [if_neg isZero, pours]
    exact ⟨page', rfl⟩

/-- Without room for the strings the copy leaves the pages. -/
theorem copyStringsFrom_fault
    (offers :
      Offers (pointersFrom kernel user fromKmem)
        (spaceFrom kernel user fromKmem) argv strings)
    (nonzero : p ≠ 0)
    (inside : p ≤ maxArgPages * pageSize)
    (more : p < (packed strings).length)
    (gets : ¬ Copy.Blocked free page p (packed strings).length) :
    copyStringsFrom free kernel user fromKmem strings.length argv page p =
      .error .fault := by
  have ready : (⟨page, p, none, 0⟩ : Copy).Ready := ⟨inside, .inl rfl⟩
  rw [copyStringsFrom_eq offers, if_neg nonzero, Copy.pour_fault ready more gets]

end All

/-- `copy_strings` copies all strings. -/
theorem copyStrings_spec
    {page : Pages} {p : Nat}
    (gets : ∀ number, free number = true)
    (has : caller.HasVector argv strings)
    (inside : p ≤ maxArgPages * pageSize)
    (room : (packed strings).length ≤ p) :
    ∃ page',
      copyStrings free caller strings.length argv page p =
          .ok (page', p - (packed strings).length) ∧
        Holds (byteAt page') (p - (packed strings).length)
          ((packed strings).map some) ∧
        ∀ a, p ≤ a → ∀ c, byteAt page a = some c →
          byteAt page' a = some c := by
  have unblocked : ¬ Copy.Blocked free page p (packed strings).length := by
    rintro ⟨a, _, _, _, refused⟩
    rw [gets] at refused
    cases refused
  have offers :
      Offers (pointersFrom caller.space caller.space 0)
        (spaceFrom caller.space caller.space 0) argv strings :=
    has.offers
  obtain ⟨page', copies, holds, keeps, _⟩ :=
    copyStringsFrom_spec offers inside room unblocked
  rw [← copyStrings_eq] at copies
  exact ⟨page', copies, holds, keeps⟩

/-- The result of `copy_strings` is where the strings begin, or zero. -/
theorem copyStringsFrom_ok
    {kernel user : Space} {fromKmem : Nat} {page page' : Pages} {p p' : Nat}
    (offers :
      Offers (pointersFrom kernel user fromKmem)
        (spaceFrom kernel user fromKmem) argv strings)
    (inside : p ≤ maxArgPages * pageSize)
    (copies :
      copyStringsFrom free kernel user fromKmem strings.length argv page p =
        .ok (page', p'))
    (notNull : p' ≠ 0) :
    p ≠ 0 ∧ p' + (packed strings).length = p ∧
      Holds (byteAt page') p' ((packed strings).map some) ∧
      ∀ a, p ≤ a → ∀ c, byteAt page a = some c →
        byteAt page' a = some c := by
  by_cases isSome : p = 0
  · rw [copyStringsFrom_eq offers, if_pos isSome] at copies
    cases copies
    exact absurd rfl notNull
  by_cases blocked : Copy.Blocked free page p (packed strings).length
  · obtain ⟨other, stops⟩ := copyStringsFrom_blocked offers inside blocked
    rw [stops] at copies
    cases copies
    exact absurd rfl notNull
  · rcases Nat.lt_or_ge p (packed strings).length with more | room
    · rw [copyStringsFrom_fault offers isSome inside more blocked] at copies
      cases copies
    · obtain ⟨other, succeeds, holds, keeps, _⟩ :=
        copyStringsFrom_spec offers inside room blocked
      rw [succeeds] at copies
      cases copies
      exact ⟨isSome, by omega, holds, keeps⟩

theorem copyStrings_place
    {page page' : Pages} {p p' : Nat}
    (has : caller.HasVector argv strings)
    (inside : p ≤ maxArgPages * pageSize)
    (copies :
      copyStrings free caller strings.length argv page p = .ok (page', p'))
    (notNull : p' ≠ 0) :
    p ≠ 0 ∧ p' + (packed strings).length = p := by
  have offers :
      Offers (pointersFrom caller.space caller.space 0)
        (spaceFrom caller.space caller.space 0) argv strings :=
    has.offers
  rw [copyStrings_eq caller.space] at copies
  obtain ⟨isSome, place, _⟩ := copyStringsFrom_ok offers inside copies notNull
  exact ⟨isSome, place⟩

end Vectors

end Execve

end HitOs
