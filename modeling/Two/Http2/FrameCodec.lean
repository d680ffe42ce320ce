import Two.Http2.SettingsFrames

/-!
# The frame codec

The accessors of `buffer.c` read back what they write, so that a frame header survives a round trip
through its nine bytes, in both directions. A SETTINGS frame carries its six values from
`send_settings_frame` to `update_settings`.

## Main definitions

* `Settings.values`: the values that `send_settings_frame` writes
* `Settings.Acceptable`: the values fit into their fields, and a peer accepts them

## Main results

* `frameParseHeader_frameHeaderToBytes`, `frameHeaderToBytes_frameParseHeader`: the round trips of a
  header
* `settingsParameters_payload`: the parameters of a SETTINGS frame
* `frameCodec`: the three laws of the codec
-/

namespace Two

/-- The values of the settings, in the order of their identifiers. -/
def Settings.values (s : Settings) : List ℕ :=
  [s.headerTableSize, s.enablePush, s.maxConcurrentStreams, s.initialWindowSize, s.maxFrameSize,
    s.maxHeaderListSize]

/-- The values are 32-bit numbers, and each is in the range of its identifier. -/
structure Settings.Acceptable (s : Settings) : Prop where
  lt : ∀ v ∈ s.values, v < 2 ^ 32
  enablePush : s.enablePush ≤ 1
  initialWindowSize : s.initialWindowSize ≤ 2 ^ 31 - 1
  maxFrameSize : 2 ^ 14 ≤ s.maxFrameSize ∧ s.maxFrameSize ≤ 2 ^ 24 - 1

/-! ## The accessors -/

section Accessors

variable {x : ℕ} {m : Bytes}

theorem byteAt_zero (b : UInt8) (m : Bytes) : byteAt (b :: m) 0 = b.toNat := rfl

theorem byteAt_succ (b : UInt8) (m : Bytes) (i : ℕ) : byteAt (b :: m) (i + 1) = byteAt m i := rfl

/-- What is true of the 256 bytes. -/
theorem forall_byte {P : UInt8 → Prop} (h : ∀ n < 256, P (UInt8.ofNat n)) (b : UInt8) : P b := by
  rw [← UInt8.ofNat_toNat (x := b)]
  exact h _ b.toNat_lt

theorem bufferGetU16_put (hx : x < 2 ^ 16) (m : Bytes) :
    bufferGetU16 (bufferPutU16 x ++ m) = x := by
  simp only [bufferGetU16, bufferPutU16, List.cons_append, byteAt_zero, byteAt_succ,
    UInt8.toNat_ofNat']
  omega

theorem bufferGetU24_put (hx : x < 2 ^ 24) (m : Bytes) :
    bufferGetU24 (bufferPutU24 x ++ m) = x := by
  simp only [bufferGetU24, bufferPutU24, List.cons_append, byteAt_zero, byteAt_succ,
    UInt8.toNat_ofNat']
  omega

theorem bufferGetU32_put (hx : x < 2 ^ 32) (m : Bytes) :
    bufferGetU32 (bufferPutU32 x ++ m) = x := by
  simp only [bufferGetU32, bufferPutU32, List.cons_append, byteAt_zero, byteAt_succ,
    UInt8.toNat_ofNat']
  omega

/-- Setting the reserved bit changes none of the other seven. -/
theorem or_reserved_mod (b : UInt8) : (b ||| 0x80).toNat % 128 = b.toNat % 128 := by
  rw [UInt8.toNat_or]
  exact (Nat.or_mod_two_pow (n := 7)).trans (by simp)

/-- A stream identifier is read back whatever the reserved bit is. -/
theorem bufferGetU31_put (hx : x < 2 ^ 31) :
    bufferGetU31 (setReserved (bufferPutU31 x)) = x := by
  simp only [bufferGetU31, bufferPutU31, setReserved, byteAt_zero, byteAt_succ, or_reserved_mod,
    UInt8.toNat_ofNat']
  omega

theorem ofNat_eq_of_mod {b : UInt8} {x : ℕ} (h : x % 256 = b.toNat) : UInt8.ofNat x = b := by
  apply UInt8.toNat_inj.mp
  rw [UInt8.toNat_ofNat']
  exact h

theorem bufferPutU24_get (a b c : UInt8) (m : Bytes) :
    bufferPutU24 (bufferGetU24 (a :: b :: c :: m)) = [a, b, c] := by
  have ha := a.toNat_lt
  have hb := b.toNat_lt
  have hc := c.toNat_lt
  simp only [bufferPutU24, bufferGetU24, byteAt_zero, byteAt_succ, List.cons.injEq, and_true]
  exact ⟨ofNat_eq_of_mod (by omega), ofNat_eq_of_mod (by omega), ofNat_eq_of_mod (by omega)⟩

/-- The four bytes of a stream identifier are written back, with the reserved bit set. -/
theorem setReserved_put_get (a b c d : UInt8) :
    setReserved (bufferPutU31 (bufferGetU31 [a, b, c, d])) = [a ||| 0x80, b, c, d] := by
  have hb := b.toNat_lt
  have hc := c.toNat_lt
  have hd := d.toNat_lt
  have ha : UInt8.ofNat (a.toNat % 128) ||| 0x80 = a ||| 0x80 := by
    refine forall_byte (P := fun a => UInt8.ofNat (a.toNat % 128) ||| 0x80 = a ||| 0x80) ?_ a
    decide +kernel
  simp only [bufferPutU31, bufferGetU31, setReserved, byteAt_zero, byteAt_succ, List.cons.injEq,
    and_true]
  refine ⟨?_, ofNat_eq_of_mod (by omega), ofNat_eq_of_mod (by omega), ofNat_eq_of_mod (by omega)⟩
  have hfirst : (((a.toNat % 128 * 256 + b.toNat) * 256 + c.toNat) * 256 + d.toNat) / 2 ^ 24 % 128 =
      a.toNat % 128 := by
    omega
  rw [hfirst, ha]

end Accessors

/-! ## Headers -/

section Headers

theorem toByte_ofByte (b : UInt8) : (FrameType.ofByte b).toByte = b := by
  refine forall_byte (P := fun b => (FrameType.ofByte b).toByte = b) ?_ b
  decide +kernel

/-- A header is parsed from the bytes it was written to. -/
theorem frameParseHeader_frameHeaderToBytes {length streamId : ℕ} (hl : length < 2 ^ 24)
    (b flags : UInt8) (hid : streamId < 2 ^ 31) :
    frameParseHeader (frameHeaderToBytes ⟨length, .ofByte b, flags, streamId⟩) =
      ⟨length, .ofByte b, flags, streamId⟩ := by
  have hlength := bufferGetU24_put hl
    ([(FrameType.ofByte b).toByte, flags] ++ setReserved (bufferPutU31 streamId))
  rw [← List.append_assoc] at hlength
  have hstream : bufferGetU31 ((frameHeaderToBytes ⟨length, .ofByte b, flags, streamId⟩).drop 5) =
      streamId := bufferGetU31_put hid
  rw [frameParseHeader, hstream]
  simp only [frameHeaderToBytes, hlength]
  simp only [bufferPutU24, List.cons_append, List.nil_append, List.getD_cons_succ,
    List.getD_cons_zero, toByte_ofByte]

/-- A parsed header is written back to its bytes, up to the reserved bit. -/
theorem frameHeaderToBytes_frameParseHeader {m : Bytes} (hm : m.length = 9) :
    frameHeaderToBytes (frameParseHeader m) = m.set 5 (m.getD 5 0 ||| 0x80) := by
  rcases m with _ | ⟨a₀, _ | ⟨a₁, _ | ⟨a₂, _ | ⟨a₃, _ | ⟨a₄, _ | ⟨a₅, _ | ⟨a₆, _ | ⟨a₇, _ |
    ⟨a₈, _ | ⟨a₉, m⟩⟩⟩⟩⟩⟩⟩⟩⟩⟩ <;> cases hm
  simp only [frameHeaderToBytes, frameParseHeader, List.drop_succ_cons, List.drop_zero,
    bufferPutU24_get, setReserved_put_get, List.getD_cons_succ, List.getD_cons_zero, toByte_ofByte]
  rfl

end Headers

/-! ## SETTINGS frames -/

section SettingsValues

variable {s : Settings} {p : ℕ × ℕ} {ps : List (ℕ × ℕ)}

/-- The bytes of one parameter. -/
def settingsEntry (p : ℕ × ℕ) : Bytes := bufferPutU16 p.1 ++ bufferPutU32 p.2

/-- The first parameter is read, and the others from the bytes behind it. -/
theorem settingsParameters_entry (hid : p.1 < 2 ^ 16) (hvalue : p.2 < 2 ^ 32) (m : Bytes) (n : ℕ) :
    settingsParameters (settingsEntry p ++ m) (6 * (n + 1)) =
      p :: settingsParameters m (6 * n) := by
  have hcount : ∀ k, (6 * k + 5) / 6 = k := fun k => by omega
  have hrest : ∀ k, (settingsEntry p ++ m).drop (6 + k) = m.drop k := fun k => by
    rw [← List.drop_drop]
    rfl
  rw [settingsParameters, settingsParameters, hcount, hcount, List.range_succ_eq_map, List.map_cons,
    List.map_map]
  refine congrArg₂ List.cons ?_ ?_
  · refine Prod.ext ?_ ?_
    · rw [settingsEntry, List.append_assoc]
      exact bufferGetU16_put hid _
    · exact bufferGetU32_put hvalue m
  · refine List.map_congr_left fun i _ => ?_
    have hi : 6 * (i + 1) = 6 + 6 * i := by omega
    simp only [Function.comp_apply, Nat.succ_eq_add_one, hi, Nat.add_assoc, hrest]

/-- What the loop of `send_settings_frame` writes is what `update_settings` reads. -/
theorem settingsParameters_flatMap (hps : ∀ p ∈ ps, p.1 < 2 ^ 16 ∧ p.2 < 2 ^ 32) :
    settingsParameters (ps.flatMap settingsEntry) (6 * ps.length) = ps := by
  induction ps with
  | nil => rfl
  | cons p ps ih =>
    obtain ⟨hid, hvalue⟩ := hps p List.mem_cons_self
    rw [List.flatMap_cons, List.length_cons, settingsParameters_entry hid hvalue,
      ih fun q hq => hps q (List.mem_cons_of_mem _ hq)]

/-- The settings as parameters. -/
def Settings.parameters (s : Settings) : List (ℕ × ℕ) :=
  [(1, s.headerTableSize), (2, s.enablePush), (3, s.maxConcurrentStreams),
    (4, s.initialWindowSize), (5, s.maxFrameSize), (6, s.maxHeaderListSize)]

theorem settingsParameters_payload (hlt : ∀ v ∈ s.values, v < 2 ^ 32) :
    settingsParameters (Frame.settings s.values).payload (Frame.settings s.values).header.length =
      s.parameters := by
  refine @settingsParameters_flatMap s.parameters fun p hp => ?_
  have hvalue : p.2 ∈ s.values := List.mem_map_of_mem (f := Prod.snd) hp
  have hid : p.1 ∈ [1, 2, 3, 4, 5, 6] := List.mem_map_of_mem (f := Prod.fst) hp
  refine ⟨?_, hlt _ hvalue⟩
  simp only [List.mem_cons, List.not_mem_nil, or_false] at hid
  omega

theorem Settings.Acceptable.inRange (h : s.Acceptable) : ∀ p ∈ s.parameters, InRange p := by
  have hpush := h.enablePush
  have hwindow := h.initialWindowSize
  have hframe := h.maxFrameSize
  simp only [Settings.parameters, InRange, acceptable, List.forall_mem_cons, List.not_mem_nil,
    IsEmpty.forall_iff, implies_true, and_true]
  omega

/-- The settings of the other side are stored, whatever they were before. -/
theorem updateSettings_payload (h : s.Acceptable) (w : World) :
    ∃ w', updateSettings (Frame.settings s.values).payload
        (Frame.settings s.values).header.length w = .ok 6 w' ∧ w'.ctx.settings = s := by
  obtain ⟨w', hrest, hsettings, -⟩ := updateSettingsLoop_accepted h.inRange 0 w
  refine ⟨w', ?_, hsettings⟩
  have hloop := hrest []
  rw [List.append_nil] at hloop
  rw [updateSettings, settingsParameters_payload h.lt, hloop]
  rfl

end SettingsValues

/-- **The frame codec.** A header is parsed from the bytes it was written to, and written back to
the bytes it was parsed from up to the reserved bit; and the values of a SETTINGS frame are stored
by the side that receives it. -/
theorem frameCodec :
    (∀ length < 2 ^ 24, ∀ type flags : UInt8, ∀ streamId < 2 ^ 31,
      frameParseHeader (frameHeaderToBytes ⟨length, .ofByte type, flags, streamId⟩) =
        ⟨length, .ofByte type, flags, streamId⟩) ∧
    (∀ m : Bytes, m.length = 9 →
      frameHeaderToBytes (frameParseHeader m) = m.set 5 (m.getD 5 0 ||| 0x80)) ∧
    ∀ s : Settings, s.Acceptable → ∀ w : World,
      ∃ w', updateSettings (Frame.settings s.values).payload
          (Frame.settings s.values).header.length w = .ok 6 w' ∧ w'.ctx.settings = s :=
  ⟨fun _ hl type flags _ hid => frameParseHeader_frameHeaderToBytes hl type flags hid,
    fun _ hm => frameHeaderToBytes_frameParseHeader hm, fun _ hs w => updateSettings_payload hs w⟩

/-- A WINDOW_UPDATE header, its bytes, and the default settings. -/
theorem frameCodec_default :
    frameParseHeader (frameHeaderToBytes ⟨4, .ofByte 8, 0, 2 ^ 31 - 1⟩) =
        ⟨4, .windowUpdate, 0, 2 ^ 31 - 1⟩ ∧
      frameHeaderToBytes (frameParseHeader [0, 0, 4, 8, 0, 0, 0, 0, 1]) =
        [0, 0, 4, 8, 0, 0x80, 0, 0, 1] ∧
      ∃ w', updateSettings (Frame.settings defaultSettings.values).payload 36
          (Connection.init ⟨[], [], 0⟩ 1 2).world = .ok 6 w' ∧
        w'.ctx.settings = defaultSettings := by
  refine ⟨frameCodec.1 4 (by decide) 8 0 (2 ^ 31 - 1) (by decide),
    frameCodec.2.1 [0, 0, 4, 8, 0, 0, 0, 0, 1] rfl, frameCodec.2.2 defaultSettings ?_ _⟩
  exact ⟨by decide, by decide, by decide, by decide⟩

end Two
