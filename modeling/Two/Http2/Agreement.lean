import Two.Hpack.RoundTrip
import Two.Http2.Simulation
import Two.Validation

/-!
# Agreement of the compression contexts

A peer keeps one table for the blocks it sends and one for those it receives. The server has a
single table: `handle_end_stream` decodes the request with it and encodes the response with it, and
a SETTINGS frame resizes it. A reference is an index into the table of the encoder, so a header
arrives exactly when the table of the decoder holds the same entry at that index.

## Main definitions

* `Resolved t d h`: what an encoder with the table `t` refers to for `h` is in the table `d`
* `Tables`, `Message`: the three tables of a connection, and what is sent on it
* `Agrees behind s ms`: every header list of the messages `ms` arrives as it was sent
* `Message.Resolved s m`: every reference of the message `m` is resolved

## Main results

* `applyField_iff`: one header arrives if and only if it is `Resolved`
* `agrees_iff`: the header lists arrive if and only if all references are resolved
* `handleEndStream_agrees`: `handle_end_stream` takes the server's table from message to message
-/

namespace Two.Hpack

/-! ## One header -/

/-- What an encoder with the table `t` refers to for a header is what a decoder with the table `d`
finds: the header itself or its name at the index, and room for the entry that the encoder adds. -/
structure Resolved (t d : DynamicTable) (h : Header) : Prop where
  whole : 0 < findIndex t h.1 h.2 → findEntryNameAndValue d (findIndex t h.1 h.2).toNat = .ok h
  name : ¬ 0 < findIndex t h.1 h.2 → 0 < findIndexName t h.1 →
    findEntryName d (findIndexName t h.1).toNat = .ok h.1
  room : ¬ 0 < findIndex t h.1 h.2 → entrySize h ≤ t.maxSize → entrySize h ≤ d.maxSize

instance (t d : DynamicTable) (h : Header) : Decidable (Resolved t d h) :=
  decidable_of_iff (_ ∧ _ ∧ _) ⟨fun hr => ⟨hr.1, hr.2.1, hr.2.2⟩, fun hr => ⟨hr.1, hr.2, hr.3⟩⟩

/-- The table of the decoder after a header: it adds what the encoder has added. -/
def decoderTable (t d : DynamicTable) (h : Header) : DynamicTable :=
  if 0 < findIndex t h.1 h.2 ∨ t.maxSize < entrySize h then d else (d.addEntry h.1 h.2).1

instance : DecidablePred Codable := fun _ =>
  -- over the list, and not over all the bytes there are
  letI : ∀ s : Bytes, Decidable (∀ b ∈ s, Printable b) := List.decidableBAll Printable
  decidable_of_iff (_ ∧ _ ∧ _ ∧ _ ∧ _ ∧ _)
    ⟨fun h => ⟨h.1, h.2.1, h.2.2.1, h.2.2.2.1, h.2.2.2.2.1, h.2.2.2.2.2⟩,
      fun h => ⟨h.1, h.2, h.3, h.4, h.5, h.6⟩⟩

section Header

variable {t d : DynamicTable} {h : Header}

/-- An entry is refused exactly when it is larger than the table. -/
theorem addEntry_neg_iff (ht : Reachable t) (hh : Codable h) :
    (t.addEntry h.1 h.2).2 < 0 ↔ t.maxSize < entrySize h := by
  obtain ⟨D, htable⟩ := ht.table
  constructor
  · intro hneg
    by_contra hfit
    have := (htable.represents.addEntry
      ⟨hh.storable.name_nulFree, hh.storable.value_nulFree⟩ (by omega)).1
    omega
  · intro hlarge
    rw [Represents.addEntry_of_gt hh.entrySize_lt hlarge]
    exact (by decide : internalError < 0)

theorem Reachable.add (ht : Reachable t) (hh : Codable h) : Reachable (t.addEntry h.1 h.2).1 :=
  ht.addEntry hh.storable.name_nulFree hh.storable.value_nulFree hh.entrySize_lt

theorem Reachable.pack (ht : Reachable t) (hh : Codable h) :
    Reachable (packHeader t h.1 h.2).2 := by
  rw [packHeader_eq]
  split
  · exact ht
  · exact ht.add hh

theorem Reachable.decoder (hd : Reachable d) (hh : Codable h) (t : DynamicTable) :
    Reachable (decoderTable t d h) := by
  rw [decoderTable]
  split
  · exact hd
  · exact hd.add hh

/-- The name of a literal field, as the decoder reads it. -/
theorem literalName_iff :
    (if (findIndexName t h.1).toNat = 0 then Except.ok h.1
      else findEntryName d (findIndexName t h.1).toNat) = .ok h.1 ↔
      (0 < findIndexName t h.1 → findEntryName d (findIndexName t h.1).toNat = .ok h.1) := by
  by_cases h0 : 0 < findIndexName t h.1
  · rw [if_neg (by omega)]
    simp only [h0, true_implies]
  · rw [if_pos (by omega)]
    simp only [h0, false_implies]

/-- A literal field means its header if and only if its name is resolved and there is room for the
entry that the encoder has added. -/
theorem applyField_literal_iff (ht : Reachable t) (hd : Reachable d) (hh : Codable h)
    (hnot : ¬ 0 < findIndex t h.1 h.2) :
    ((applyField d ⟨(packHeader t h.1 h.2).1, h⟩).2 = .ok h ↔
      (0 < findIndexName t h.1 → findEntryName d (findIndexName t h.1).toNat = .ok h.1) ∧
        (entrySize h ≤ t.maxSize → entrySize h ≤ d.maxSize)) ∧
      ((applyField d ⟨(packHeader t h.1 h.2).1, h⟩).2 = .ok h →
        (applyField d ⟨(packHeader t h.1 h.2).1, h⟩).1 = decoderTable t d h) := by
  rw [packHeader_eq, if_neg hnot, applyField, ← literalName_iff]
  simp only [addEntry_neg_iff ht hh, decoderTable, hnot, false_or]
  generalize (if (findIndexName t h.1).toNat = 0 then Except.ok h.1
    else findEntryName d (findIndexName t h.1).toNat) = name
  by_cases hlarge : t.maxSize < entrySize h
  · -- the encoder has added nothing
    have hvacuous : entrySize h ≤ t.maxSize → entrySize h ≤ d.maxSize := fun hle => by omega
    simp only [if_pos hlarge, if_neg (show Preamble.literalHeaderFieldNeverIndexed ≠
      .indexedHeaderField by decide), if_neg (show Preamble.literalHeaderFieldNeverIndexed ≠
      .literalHeaderFieldWithIncrementalIndexing by decide)]
    cases name with
    | error rc => simp
    | ok n => simpa [Prod.ext_iff] using fun _ => hvacuous
  · have hfits : entrySize h ≤ t.maxSize := by omega
    simp only [if_neg hlarge, if_neg (show Preamble.literalHeaderFieldWithIncrementalIndexing ≠
      .indexedHeaderField by decide), if_true]
    cases name with
    | error rc => simp
    | ok n =>
      simp only [hfits, true_implies, Except.ok.injEq]
      by_cases hn : n = h.1
      · subst hn
        simp only [addEntry_neg_iff hd hh, true_and]
        split
        · simp only [reduceCtorEq, false_iff, false_implies, and_true]
          omega
        · simp only [true_iff, true_implies, and_true]
          omega
      · simp only [hn, false_and, iff_false]
        split
        · simp
        · simp [Prod.ext_iff, hn]

/-- **One header arrives** if and only if what the encoder refers to is resolved, and then the
decoder adds what the encoder has added. -/
theorem applyField_iff (ht : Reachable t) (hd : Reachable d) (hh : Codable h) :
    ((applyField d ⟨(packHeader t h.1 h.2).1, h⟩).2 = .ok h ↔ Resolved t d h) ∧
      ((applyField d ⟨(packHeader t h.1 h.2).1, h⟩).2 = .ok h →
        (applyField d ⟨(packHeader t h.1 h.2).1, h⟩).1 = decoderTable t d h) := by
  by_cases hpos : 0 < findIndex t h.1 h.2
  · rw [packHeader_eq, if_pos hpos, applyField, if_pos rfl, decoderTable, if_pos (.inl hpos)]
    refine ⟨⟨fun hfound => ?_, fun hr => hr.whole hpos⟩, fun _ => rfl⟩
    exact ⟨fun _ => hfound, fun hnot => absurd hpos hnot, fun hnot => absurd hpos hnot⟩
  · obtain ⟨hiff, htable⟩ := applyField_literal_iff ht hd hh hpos
    refine ⟨?_, htable⟩
    rw [hiff]
    constructor
    · rintro ⟨hname, hroom⟩
      exact ⟨fun h => absurd h hpos, fun _ => hname, fun _ => hroom⟩
    · intro hr
      exact ⟨hr.name hpos, hr.room hpos⟩

end Header

/-! ## Header lists -/

/-- Every header of a list is, when the encoder reaches it, resolved. -/
def ResolvedList : DynamicTable → DynamicTable → List Header → Prop
  | _, _, [] => True
  | t, d, h :: hs => Resolved t d h ∧ ResolvedList (packHeader t h.1 h.2).2 (decoderTable t d h) hs

/-- Running through a header list. -/
def decidableResolvedList : ∀ t d hs, Decidable (ResolvedList t d hs)
  | _, _, [] => inferInstanceAs (Decidable True)
  | t, d, h :: hs =>
    have := decidableResolvedList (packHeader t h.1 h.2).2 (decoderTable t d h) hs
    inferInstanceAs (Decidable (_ ∧ _))

instance (t d : DynamicTable) (hs : List Header) : Decidable (ResolvedList t d hs) :=
  decidableResolvedList t d hs

/-- The table of the decoder after a header list. -/
def decoderTables : DynamicTable → DynamicTable → List Header → DynamicTable
  | _, d, [] => d
  | t, d, h :: hs => decoderTables (packHeader t h.1 h.2).2 (decoderTable t d h) hs

section Blocks

variable {t d : DynamicTable} {hs : List Header}

theorem Reachable.packs (ht : Reachable t) (hhs : ∀ h ∈ hs, Codable h) :
    Reachable (packHeaders t hs).2 := by
  induction hs generalizing t with
  | nil => exact ht
  | cons h hs ih =>
    exact ih (ht.pack (hhs h List.mem_cons_self)) fun k hk => hhs k (List.mem_cons_of_mem _ hk)

theorem Reachable.decoders (hd : Reachable d) (hhs : ∀ h ∈ hs, Codable h) (t : DynamicTable) :
    Reachable (decoderTables t d hs) := by
  induction hs generalizing t d with
  | nil => exact hd
  | cons h hs ih =>
    exact ih (hd.decoder (hhs h List.mem_cons_self) t)
      (fun k hk => hhs k (List.mem_cons_of_mem _ hk)) _

/-- The fields of a header list mean their headers if and only if all of them are resolved. -/
theorem means_iff (ht : Reachable t) (hd : Reachable d) (hhs : ∀ h ∈ hs, Codable h) :
    (Means d (packHeaders t hs).1 ↔ ResolvedList t d hs) ∧
      (Means d (packHeaders t hs).1 →
        applyFields d (packHeaders t hs).1 = decoderTables t d hs) := by
  induction hs generalizing t d with
  | nil => exact ⟨Iff.rfl, fun _ => rfl⟩
  | cons h hs ih =>
    have hh := hhs h List.mem_cons_self
    obtain ⟨hiff, htable⟩ := applyField_iff ht hd hh
    obtain ⟨ihiff, ihtable⟩ := ih (ht.pack hh) (hd.decoder hh t)
      fun k hk => hhs k (List.mem_cons_of_mem _ hk)
    obtain ⟨hmeans, hfields⟩ := @means_packHeaders_cons t d _ h hs htable
    refine ⟨?_, fun hm => ?_⟩
    · rw [hmeans, hiff, ihiff]
      rfl
    · rw [hfields hm, ihtable (hmeans.mp hm).2]
      rfl

end Blocks

end Two.Hpack

namespace Two

open Hpack Program

/-! ## The list that the decoder builds -/

/-- No name of the list begins an earlier one, up to case. -/
def Unmerged (hs : List Header) : Prop :=
  hs.Pairwise fun k h => strncasecmpEq h.1 k.1 = false

instance : DecidablePred Unmerged := fun hs =>
  inferInstanceAs (Decidable (hs.Pairwise fun k h => strncasecmpEq h.1 k.1 = false))

section Lists

variable {l : HeaderList} {hs es : List Header} {h : Header}

/-- A header is appended, unless its name begins the name of an entry. -/
theorem addTo_cases (es : List Header) (h : Header) :
    (HeaderList.addTo es h = es ++ [h] ∧ ∀ k ∈ es, strncasecmpEq h.1 k.1 = false) ∨
      (HeaderList.addTo es h).length = es.length ∧ ∃ k ∈ es, strncasecmpEq h.1 k.1 = true := by
  rw [HeaderList.addTo]
  cases hfind : es.findIdx? (fun k => strncasecmpEq h.1 k.1) with
  | none =>
    left
    exact ⟨rfl, fun k hk => by simpa using List.findIdx?_eq_none_iff.mp hfind k hk⟩
  | some j =>
    right
    obtain ⟨hj, hmatch, -⟩ := List.findIdx?_eq_some_iff_getElem.mp hfind
    refine ⟨?_, es[j], List.getElem_mem hj, hmatch⟩
    simp only [List.length_append, List.length_take, List.length_drop, List.length_singleton]
    omega

/-- The list of the added headers has them all, or fewer entries than headers were added. -/
theorem gathered_cases (hs : List Header) :
    gathered hs = hs ∧ Unmerged hs ∨ (gathered hs).length < hs.length ∧ ¬ Unmerged hs := by
  induction hs using List.reverseRecOn with
  | nil => exact .inl ⟨rfl, List.Pairwise.nil⟩
  | append_singleton hs h hcases =>
    have hsnoc : Unmerged (hs ++ [h]) ↔ Unmerged hs ∧ ∀ k ∈ hs, strncasecmpEq h.1 k.1 = false := by
      simp [Unmerged, List.pairwise_append]
    rw [hsnoc, List.length_append, List.length_singleton, gathered_snoc]
    -- a header is appended, or merged into one that has its name
    rcases addTo_cases (gathered hs) h with ⟨heq, hnone⟩ | ⟨hlen, k, hk, hmatch⟩
    · rw [heq]
      rcases hcases with ⟨hgathered, hunmerged⟩ | ⟨hlt, hmerged⟩
      · rw [hgathered] at hnone ⊢
        exact .inl ⟨rfl, hunmerged, hnone⟩
      · rw [List.length_append, List.length_singleton]
        exact .inr ⟨by omega, fun hu => hmerged hu.1⟩
    · rw [hlen]
      rcases hcases with ⟨hgathered, -⟩ | ⟨hlt, hmerged⟩
      · rw [hgathered] at hk ⊢
        refine .inr ⟨by omega, fun hu => ?_⟩
        rw [hu.2 k hk] at hmatch
        cases hmatch
      · exact .inr ⟨by omega, fun hu => hmerged hu.1⟩

/-- **The list of the added headers**, which fit, has exactly these headers if and only if none is
merged. -/
theorem all_adds_iff (hstored : ∀ h ∈ hs, HeaderList.Storable h)
    (hfit : HeaderList.packedSize hs ≤ headerListMaxSize) (hadds : adds hs = some l) :
    l.all = hs ↔ Unmerged hs := by
  obtain ⟨l', hadds', hbuffer⟩ := adds_gathered hstored (fitting_of_packedSize hstored hfit)
  obtain rfl : l = l' := Option.some.inj (hadds.symm.trans hadds')
  rw [HeaderList.all_records hbuffer (storable_gathered hstored)]
  rcases gathered_cases hs with ⟨heq, hunmerged⟩ | ⟨hlt, hmerged⟩
  · exact iff_of_true heq hunmerged
  · refine iff_of_false (fun heq => ?_) hmerged
    rw [heq] at hlt
    exact absurd hlt (lt_irrefl _)

/-- A decoder that succeeds has added the headers to the list one after the other. -/
theorem adds_decodeLoop (behind : Behind) (block : Bytes) (size : ℕ) :
    ∀ (fuel pointer : ℕ) (c : Bool) (d : DynamicTable) (headers : HeaderList) (added : List Header),
      adds added = some headers →
      0 ≤ (decodeLoop behind block size fuel pointer c d headers added).rc →
      adds (decodeLoop behind block size fuel pointer c d headers added).added =
        some (decodeLoop behind block size fuel pointer c d headers added).headers := by
  intro fuel
  induction fuel with
  | zero => exact fun _ _ _ _ _ hadds _ => hadds
  | succ fuel ih =>
    intro pointer c d headers added hadds
    simp only [decodeLoop]
    split
    · split
      · exact fun _ => hadds
      · split
        · exact fun _ => hadds
        split
        · exact fun _ => hadds
        split
        · exact fun _ => hadds
        · split
          · -- the header is added, or the decoder fails
            rename_i name value _ _
            cases hadd : headers.add name value with
            | none => exact fun hrc => absurd hrc (by decide : ¬ (0 : ℤ) ≤ -1)
            | some headers' =>
              exact ih _ _ _ _ _ (by rw [adds_snoc, hadds, Option.bind_some]; exact hadd)
          · exact ih _ _ _ _ _ hadds
    · split
      · exact fun _ => hadds
      · exact fun _ => hadds

theorem adds_decode (behind : Behind) (d : DynamicTable) (block : Bytes) (size : ℕ)
    (hrc : 0 ≤ (decode behind d block size .reset).rc) :
    adds (decode behind d block size .reset).added =
      some (decode behind d block size .reset).headers :=
  adds_decodeLoop behind block size _ _ _ _ _ _ rfl hrc

end Lists

/-! ## The exchange -/

/-- The tables of a connection: the peer has one for each direction, the server one for both. -/
structure Tables where
  sending : DynamicTable
  receiving : DynamicTable
  server : DynamicTable

/-- The tables when a connection begins, all of them as `hpack_init` leaves them. -/
def Tables.init : Tables :=
  ⟨zeroedTable.init http2HeaderTableSize, zeroedTable.init http2HeaderTableSize,
    zeroedTable.init http2HeaderTableSize⟩

/-- What is sent on a connection: the headers of a request, which the peer encodes to a buffer of
some size, those of a response, and a value of SETTINGS_HEADER_TABLE_SIZE. -/
inductive Message
  | request (l : HeaderList) (bufferSize : ℕ)
  | response (l : HeaderList)
  | setting (value : ℕ)

/-- A header list is sent from an encoder with the table `t` to a decoder with the table `d`: the
table of the encoder after it, and what the decoder returns. -/
def transfer (behind : Behind) (t d : DynamicTable) (l : HeaderList) (bufferSize : ℕ) :
    Option (DynamicTable × DecodeResult) :=
  (encode t l .empty bufferSize).map fun r =>
    (r.2.1, decode behind d (r.2.2.bytes r.1.toNat) r.1.toNat .reset)

/-- The decoder has accepted the headers of `l`, in their order, and its list is the same. -/
structure Carries (l : HeaderList) (r : DecodeResult) : Prop where
  accepted : 0 ≤ r.rc
  added : r.added = l.all
  list : r.headers.all = l.all

/-- Every header list arrives as it was sent, where `behind` says what stands behind the buffers of
the decoder at each message, by the number of messages after it. -/
def Agrees (behind : ℕ → Behind) : Tables → List Message → Prop
  | _, [] => True
  | s, .request l bufferSize :: ms =>
    ∃ t r, transfer (behind ms.length) s.sending s.server l bufferSize = some (t, r) ∧
      Carries l r ∧ Agrees behind { s with sending := t, server := r.table } ms
  | s, .response l :: ms =>
    ∃ t r, transfer (behind ms.length) s.server s.receiving l (frameMaxSize - 9) = some (t, r) ∧
      Carries l r ∧ Agrees behind { s with server := t, receiving := r.table } ms
  | s, .setting value :: ms =>
    Agrees behind { s with
      server := dynamicChangeMaxSize s.server (min http2HeaderTableSize value) } ms

/-- The codec is made for the header list: it is well-formed, its headers are printable, and its
encoding is shorter than the buffer and than 256 bytes. -/
structure Sendable (t : DynamicTable) (l : HeaderList) (bufferSize : ℕ) : Prop where
  holds : l.Holds l.all
  codable : ∀ h ∈ l.all, Codable h
  fits : (blockBytes (packHeaders t l.all).1).length < bufferSize
  short : (blockBytes (packHeaders t l.all).1).length < 256

instance (t : DynamicTable) (l : HeaderList) (bufferSize : ℕ) :
    Decidable (Sendable t l bufferSize) :=
  have : Decidable (l.Holds l.all) :=
    decidable_of_iff (_ ∧ _ ∧ _) ⟨fun h => ⟨h.1, h.2.1, h.2.2⟩, fun h => ⟨h.1, h.2, h.3⟩⟩
  decidable_of_iff (_ ∧ _ ∧ _ ∧ _)
    ⟨fun h => ⟨h.1, h.2.1, h.2.2.1, h.2.2.2⟩, fun h => ⟨h.1, h.2, h.3, h.4⟩⟩

/-- The tables after a message whose references are resolved. -/
def Tables.after (s : Tables) : Message → Tables
  | .request l _ => { s with
      sending := (packHeaders s.sending l.all).2
      server := decoderTables s.sending s.server l.all }
  | .response l => { s with
      server := (packHeaders s.server l.all).2
      receiving := decoderTables s.server s.receiving l.all }
  | .setting value => { s with
      server := dynamicChangeMaxSize s.server (min http2HeaderTableSize value) }

/-- The codec is made for the header list of a message. -/
def Message.Sendable (s : Tables) : Message → Prop
  | .request l bufferSize => Two.Sendable s.sending l bufferSize
  | .response l => Two.Sendable s.server l (frameMaxSize - 9)
  | .setting _ => True

instance (s : Tables) : DecidablePred (Message.Sendable s)
  | .request .. | .response .. => inferInstanceAs (Decidable (Two.Sendable ..))
  | .setting _ => inferInstanceAs (Decidable True)

/-- The references of a message are resolved, and no header of its list is merged with another. -/
def Message.Resolved (s : Tables) : Message → Prop
  | .request l _ => ResolvedList s.sending s.server l.all ∧ Unmerged l.all
  | .response l => ResolvedList s.server s.receiving l.all ∧ Unmerged l.all
  | .setting _ => True

instance (s : Tables) : DecidablePred (Message.Resolved s)
  | .request .. | .response .. => inferInstanceAs (Decidable (_ ∧ _))
  | .setting _ => inferInstanceAs (Decidable True)

/-- A property of every message of a sequence and the tables before it. -/
def Throughout (P : Tables → Message → Prop) : Tables → List Message → Prop
  | _, [] => True
  | s, m :: ms => P s m ∧ Throughout P (s.after m) ms

/-- Running through the messages. -/
def decidableThroughout (P : Tables → Message → Prop) [hP : ∀ s, DecidablePred (P s)] :
    ∀ s ms, Decidable (Throughout P s ms)
  | _, [] => inferInstanceAs (Decidable True)
  | s, m :: ms =>
    have := decidableThroughout P (s.after m) ms
    inferInstanceAs (Decidable (P s m ∧ _))

instance (P : Tables → Message → Prop) [∀ s, DecidablePred (P s)] (s : Tables) (ms : List Message) :
    Decidable (Throughout P s ms) := decidableThroughout P s ms

section Exchange

variable {t d : DynamicTable} {l : HeaderList} {bufferSize : ℕ} {s : Tables} {m : Message}
  {ms : List Message}

/-- **One header list arrives** if and only if its references are resolved and none of its headers
is merged with another. -/
theorem transfer_iff (behind : Behind) (ht : Reachable t) (hd : Reachable d) (hl : Sendable t l bufferSize) :
    ∃ r, transfer behind t d l bufferSize = some ((packHeaders t l.all).2, r) ∧
      (Carries l r ↔ ResolvedList t d l.all ∧ Unmerged l.all) ∧
      (Carries l r → r.table = decoderTables t d l.all) := by
  obtain ⟨hmeans, htables⟩ := means_iff ht hd hl.codable
  obtain ⟨out, henc, hbytes, hsound, hcomplete⟩ :=
    decode_encode_iff behind t d hl.holds hl.codable hl.fits hl.short .empty
  refine ⟨_, by rw [transfer, henc, Option.map_some], ?_, fun hc => ?_⟩
  · simp only [Int.toNat_natCast, hbytes]
    have hstored : ∀ h ∈ l.all, HeaderList.Storable h := fun h hh => (hl.codable h hh).storable
    constructor
    · rintro ⟨hrc, hadded, hlist⟩
      have hadds := adds_decode _ _ _ _ hrc
      rw [hadded] at hadds
      exact ⟨hmeans.mp (hsound hadded), (all_adds_iff hstored hl.holds.fits hadds).mp hlist⟩
    · rintro ⟨hresolved, hunmerged⟩
      -- the block decodes, so the decoder has added the headers in their order
      obtain ⟨hrc, -, hadded⟩ := hcomplete (hmeans.mpr hresolved)
      have hpos : 0 ≤ (decode behind d (blockBytes (packHeaders t l.all).1)
          (blockBytes (packHeaders t l.all).1).length .reset).rc := by
        rw [hrc]
        exact Int.natCast_nonneg _
      have hadds := adds_decode _ _ _ _ hpos
      rw [hadded] at hadds
      exact ⟨hpos, hadded, (all_adds_iff hstored hl.holds.fits hadds).mpr hunmerged⟩
  · simp only [Int.toNat_natCast, hbytes] at hc ⊢
    have hm := hsound hc.added
    rw [(hcomplete hm).2.1, htables hm]

/-- What follows a header list that arrives, in terms of the tables that both sides have then. -/
theorem exists_transfer_iff (behind : Behind) (ht : Reachable t) (hd : Reachable d) (hl : Sendable t l bufferSize)
    (P : DynamicTable → DynamicTable → Prop) :
    (∃ t' r, transfer behind t d l bufferSize = some (t', r) ∧ Carries l r ∧ P t' r.table) ↔
      (ResolvedList t d l.all ∧ Unmerged l.all) ∧
        P (packHeaders t l.all).2 (decoderTables t d l.all) := by
  obtain ⟨r, hr, hiff, htable⟩ := transfer_iff behind ht hd hl
  rw [← hiff]
  constructor
  · rintro ⟨t', r', heq, hc, hrest⟩
    rw [hr, Option.some.injEq, Prod.mk.injEq] at heq
    obtain ⟨rfl, rfl⟩ := heq
    exact ⟨hc, htable hc ▸ hrest⟩
  · rintro ⟨hc, hrest⟩
    exact ⟨_, r, hr, hc, (htable hc).symm ▸ hrest⟩

/-- The three tables are reachable. -/
structure Tables.Reachable (s : Tables) : Prop where
  sending : Hpack.Reachable s.sending
  receiving : Hpack.Reachable s.receiving
  server : Hpack.Reachable s.server

theorem Tables.Reachable.after (hs : s.Reachable) (hm : m.Sendable s) : (s.after m).Reachable := by
  cases m with
  | request l bufferSize =>
    exact ⟨hs.sending.packs hm.codable, hs.receiving, hs.server.decoders hm.codable _⟩
  | response l =>
    exact ⟨hs.sending, hs.receiving.decoders hm.codable _, hs.server.packs hm.codable⟩
  | setting value => exact ⟨hs.sending, hs.receiving, hs.server.dynamicChangeMaxSize _⟩

/-- One message: its header list arrives if and only if its references are resolved. -/
theorem agrees_cons_iff (behind : ℕ → Behind) (hs : s.Reachable) (hm : m.Sendable s) :
    Agrees behind s (m :: ms) ↔ m.Resolved s ∧ Agrees behind (s.after m) ms := by
  cases m with
  | request l bufferSize =>
    exact exists_transfer_iff _ hs.sending hs.server hm fun t d =>
      Agrees behind { s with sending := t, server := d } ms
  | response l =>
    exact exists_transfer_iff _ hs.server hs.receiving hm fun t d =>
      Agrees behind { s with server := t, receiving := d } ms
  | setting value => simp only [Agrees, Message.Resolved, true_and, Tables.after]

theorem agrees_iff_of_reachable (behind : ℕ → Behind) (hs : s.Reachable)
    (hms : Throughout Message.Sendable s ms) : Agrees behind s ms ↔ Throughout Message.Resolved s ms := by
  induction ms generalizing s with
  | nil => exact Iff.rfl
  | cons m ms ih =>
    rw [agrees_cons_iff behind hs hms.1, Throughout, ih (hs.after hms.1) hms.2]

theorem reachable_init : Tables.init.Reachable :=
  ⟨.init _ le_rfl, .init _ le_rfl, .init _ le_rfl⟩

/-- **Agreement of the compression contexts.** For every sequence of requests, responses and
settings that the codec is made for: all header lists arrive as they were sent if and only if, at
every header that is encoded, the table of the decoder holds what the encoder refers to, and no
header of a list is merged with another. -/
theorem agrees_iff (behind : ℕ → Behind) (hms : Throughout Message.Sendable .init ms) :
    Agrees behind .init ms ↔ Throughout Message.Resolved .init ms :=
  agrees_iff_of_reachable behind reachable_init hms

end Exchange

/-! ## The table of the server -/

section Server

variable {server : Server} {w : World}

/-- A failure returns no length. -/
theorem failWith_returns (e : Http2Error) {P : World → Prop} :
    wp (failWith e) (fun rc w' => 0 ≤ rc → P w') (fun _ _ => True) w := by
  rw [failWith, wp_bind]
  exact wp_of_forall (fun _ _ hrc => absurd hrc (by decide : ¬ (0 : ℤ) ≤ -1)) fun _ _ => trivial

/-- The response is sent with the table of the context. -/
theorem handleRequest_transfers (headers : HeaderList) (behind : Behind) (d : DynamicTable) :
    wp (handleRequest server headers) (fun rc w' => 0 ≤ rc → ∃ r,
        transfer behind w.ctx.hpackDynamicTable d
          (responseHeaders (respond server headers w.ctx w.loop.calls)) (frameMaxSize - 9) =
            some (w'.ctx.hpackDynamicTable, r))
      (fun _ _ => True) w := by
  simp only [handleRequest, sendHeadersFrame, wp_bind, wp_get, wp_set, wp_getCtx, transfer]
  cases hencode : encode w.ctx.hpackDynamicTable
      (responseHeaders (respond server headers w.ctx w.loop.calls)) .empty (frameMaxSize - 9) with
  | none => trivial
  | some r =>
    obtain ⟨size, table, buffer⟩ := r
    simp only [wp_bind, wp_modifyCtx, wp_ite, wp_pure]
    refine ⟨fun hneg => ⟨fun _ => failWith_returns _, fun hpos => absurd hneg hpos⟩, fun _ => ?_⟩
    refine sendFrame_wp (fun _ n => ⟨fun _ => failWith_returns _, fun _ _ => ?_⟩)
      fun _ _ _ _ _ => trivial
    exact ⟨decode behind d (buffer.bytes size.toNat) size.toNat .reset, by simp⟩

/-- **One table for both directions.** Where `handle_end_stream` answers a request, the response is
the next message of the exchange, in which the server has the table that the decoder has left; and
the table of the context is the one that the server has after this message. -/
theorem handleEndStream_agrees (behind : ℕ → Behind) (s : Tables) (ms : List Message)
    {result : DecodeResult}
    (hresult : decode (server.behind w.loop.calls) w.ctx.hpackDynamicTable w.ctx.stream.buf
      w.ctx.stream.buflen .reset = result) (hs : s.server = result.table) :
    wp (handleEndStream server) (fun rc w' => 0 ≤ rc →
        let response := responseHeaders (respond server result.headers w.ctx w.loop.calls)
        ∃ r, transfer (behind ms.length) s.server s.receiving response (frameMaxSize - 9) =
            some (w'.ctx.hpackDynamicTable, r) ∧
          (Agrees behind s (.response response :: ms) ↔ Carries response r ∧
            Agrees behind { s with
              server := w'.ctx.hpackDynamicTable
              receiving := r.table } ms))
      (fun _ _ => True) w := by
  simp only [handleEndStream, wp_bind, wp_get, wp_record, wp_modifyCtx, hresult]
  simp only [wp_ite]
  refine ⟨fun _ => failWith_returns _, fun _ => ⟨fun _ => failWith_returns _, fun _ =>
    ⟨fun _ => failWith_returns _, fun _ => ⟨fun _ => failWith_returns _, fun _ => ?_⟩⟩⟩⟩
  refine (handleRequest_transfers result.headers (behind ms.length) s.receiving).mono
    (fun rc w' hsent hrc => ?_) fun _ _ _ => trivial
  obtain ⟨r, hr⟩ := hsent hrc
  have htransfer : transfer (behind ms.length) s.server s.receiving
      (responseHeaders (respond server result.headers w.ctx w.loop.calls)) (frameMaxSize - 9) =
        some (w'.ctx.hpackDynamicTable, r) := by
    rw [hs]
    exact hr
  refine ⟨r, htransfer, ?_⟩
  rw [Agrees, htransfer]
  constructor
  · rintro ⟨t, r', heq, hcarries, hrest⟩
    obtain ⟨rfl, rfl⟩ := Prod.mk.inj (Option.some.inj heq)
    exact ⟨hcarries, hrest⟩
  · rintro ⟨hcarries, hrest⟩
    exact ⟨_, _, rfl, hcarries, hrest⟩

end Server

/-! ## An exchange that agrees, and one that does not -/

/-- The headers of a message. -/
def Message.headers : Message → List Header
  | .request l _ => l.all
  | .response l => l.all
  | .setting _ => []

/-- No name and no value that is used is a beginning of another one. -/
def PrefixFree (ms : List Message) : Prop :=
  ∀ h ∈ ms.flatMap Message.headers, ∀ k ∈ ms.flatMap Message.headers,
    (h.1 <+: k.1 → h.1 = k.1) ∧ (h.2 <+: k.2 → h.2 = k.2)

/-- A list of headers. -/
def listOf (hs : List Header) : HeaderList := ⟨HeaderList.records hs, hs.length⟩

/-- The headers of the response of a server without resources. -/
def notFound : HeaderList :=
  responseHeaders (httpHandleRequest [] 0 (ascii "GET") (ascii "/") [] http2StreamBufSize)

/-- A request whose headers are all in the static table. -/
def staticRequest : HeaderList :=
  listOf [(ascii ":method", ascii "GET"), (ascii ":scheme", ascii "http"),
    (ascii ":path", ascii "/")]

/-- A request with one more header, its response, and a second request. -/
def requests (second : HeaderList) : List Message :=
  [.request (listOf (requestFor (ascii "/"))) 128, .response notFound, .request second 128]

/-- The messages of both exchanges are made for the codec. -/
theorem sendable_requests {second : HeaderList}
    (hsecond : second = staticRequest ∨ second = listOf (requestFor (ascii "/"))) :
    Throughout Message.Sendable .init (requests second) := by
  rcases hsecond with rfl | rfl
  · decide +kernel
  · decide +kernel

/-- The headers of two requests and of the response between them arrive, since the second request
needs no entry of the table. -/
theorem agrees_requests : Agrees (fun _ => zeroBehind) .init (requests staticRequest) :=
  (agrees_iff _ (sendable_requests (.inl rfl))).mpr (by decide +kernel)

/-- The response has added the entry `content-length: 0` to the table of the server, so the peer's
index for `accept: */*` means that entry there. -/
theorem not_agrees : ¬ ∀ (behind : ℕ → Behind) (ms : List Message),
    Throughout Message.Sendable .init ms → PrefixFree ms → Agrees behind .init ms := by
  intro h
  have hagrees := h (fun _ => zeroBehind) (requests (listOf (requestFor (ascii "/")))) (sendable_requests (.inr rfl))
    (by unfold PrefixFree; decide +kernel)
  rw [agrees_iff_of_reachable _ reachable_init (sendable_requests (.inr rfl))] at hagrees
  revert hagrees
  decide +kernel

end Two
