import FreeSensePorts.Core.Fields
import FreeSensePorts.Filterlog.Icmp

/-!
# Reading ICMP records back

Echo messages and timestamps are logged with their identifier and sequence number.  The length that
`icmp_print` appends to every record follows the sequence number without a comma, except in a
timestamp reply, where it follows the last time.  A time ends with exactly three digits, so that the
length can be told from it; a sequence number has no fixed width.
-/

namespace FreeSense.Filterlog

open List Printer

variable {m : Message}

/-- What `icmp_print` is called with. -/
structure Message where
  mem : Memory
  bp : ℕ
  plen : ℕ

namespace Message

def type (m : Message) : ℕ := (m.mem m.bp).toNat

def id (m : Message) : ℕ := word16 m.mem (m.bp + 4)

def seq (m : Message) : ℕ := word16 m.mem (m.bp + 6)

def text (m : Message) : Text := (icmpPrint m.mem m.bp m.plen).text

def Numbered (m : Message) : Prop :=
  m.type = icmpEcho ∨ m.type = icmpEchoreply ∨ m.type = icmpTstamp ∨ m.type = icmpTstampreply

instance (m : Message) : Decidable m.Numbered :=
  inferInstanceAs (Decidable (_ ∨ _))

/-- The values a record is about. -/
def SameRecord (m n : Message) : Prop :=
  m.type = n.type ∧ m.id = n.id ∧ m.seq = n.seq ∧ m.plen = n.plen

/-- The field behind the identifier is the sequence number. -/
def SeqField (m : Message) : Prop := (fields m.text)[2]? = some (unsigned m.seq)

/-! ## The fields of a record -/

/-- The first field of the types whose record ends with the sequence number. -/
def shortName (type : ℕ) : Text :=
  if type = icmpEcho then "request".toList
  else if type = icmpEchoreply then "reply".toList
  else "tstamp".toList

lemma comma_not_mem_shortName (type : ℕ) : ',' ∉ shortName type := by
  unfold shortName
  split_ifs <;> decide

lemma text_eq (m : Message) :
    m.text = (icmpMessage m.mem m.bp m.type).text ++ unsigned m.plen := by
  simp [text, icmpPrint, type]

theorem text_of_short (h : m.Numbered) (hne : m.type ≠ icmpTstampreply) :
    m.text = shortName m.type ++ ',' :: (unsigned m.id ++ ',' :: (unsigned m.seq ++ unsigned m.plen)) := by
  rw [text_eq]
  rcases h with h | h | h | h
  · simp [h, icmpMessage, idSeq, shortName, id, seq]
  · simp [h, icmpMessage, idSeq, shortName, id, seq, icmpEcho, icmpEchoreply]
  · simp [h, icmpMessage, idSeq, shortName, id, seq, icmpEcho, icmpEchoreply, icmpUnreach,
      icmpRedirect, icmpRouteradvert, icmpTimxceed, icmpParamprob, icmpMaskreply, icmpTstamp]
  · exact absurd h hne

theorem fields_of_short (h : m.Numbered) (hne : m.type ≠ icmpTstampreply) :
    fields m.text = [shortName m.type, unsigned m.id, unsigned m.seq ++ unsigned m.plen] := by
  have hdigits : ',' ∉ unsigned m.seq ++ unsigned m.plen := by
    rw [mem_append, not_or]
    exact ⟨not_mem_unsigned (by decide), not_mem_unsigned (by decide)⟩
  rw [text_of_short h hne, fields_cons (comma_not_mem_shortName _),
    fields_cons (not_mem_unsigned (by decide)), fields_last hdigits]

/-- A time of day in milliseconds. -/
lemma icmpTstampPrint_eq (tstamp : ℕ) :
    icmpTstampPrint tstamp = clock (tstamp / 1000) ++ '.' :: padded 3 (tstamp % 1000) := by
  simp [icmpTstampPrint, clock]

lemma not_mem_clock {seconds : ℕ} {c : Char} (hc : c.isDigit = false) (hne : c ≠ ':') :
    c ∉ clock seconds := by
  have hcolon : c ∉ ":".toList := by simpa using hne
  simp only [clock, mem_append, not_or]
  exact ⟨⟨⟨⟨not_mem_padded hc, hcolon⟩, not_mem_padded hc⟩, hcolon⟩, not_mem_padded hc⟩

lemma comma_not_mem_icmpTstampPrint (tstamp : ℕ) : ',' ∉ icmpTstampPrint tstamp := by
  rw [icmpTstampPrint_eq, mem_append, mem_cons, not_or, not_or]
  exact ⟨not_mem_clock (by decide) (by decide), by decide, not_mem_padded (by decide)⟩

lemma text_tstampreplyPrint (mem : Memory) (bp : ℕ) :
    (tstampreplyPrint mem bp).text = (idSeq mem bp "tstampreply, ").text ++ (",".toList ++
      ((icmpTstampPrint (word32 mem (bp + 8)) ++ ",".toList) ++
      ((icmpTstampPrint (word32 mem (bp + 12)) ++ ",".toList) ++
      icmpTstampPrint (word32 mem (bp + 16))))) := by
  rw [tstampreplyPrint, text_bind, text_bind, text_emit, text_extract32Bits_bind, text_bind,
    text_emit, text_extract32Bits_bind, text_bind, text_emit, text_extract32Bits_bind, text_emit]

/-- The commas of a reply.  The times are any texts, which keeps the kernel from evaluating them. -/
lemma idSeq_reply_append (m : Message) (otime rtime ttime : Text) :
    (idSeq m.mem m.bp "tstampreply, ").text ++ (",".toList ++ ((otime ++ ",".toList) ++
      ((rtime ++ ",".toList) ++ ttime))) ++ unsigned m.plen =
    "tstampreply".toList ++ ',' :: ((' ' :: unsigned m.id) ++ ',' :: (unsigned m.seq ++ ',' ::
      (otime ++ ',' :: (rtime ++ ',' :: (ttime ++ unsigned m.plen))))) := by
  simp [idSeq, id, seq]

theorem text_of_reply (h : m.type = icmpTstampreply) :
    m.text = "tstampreply".toList ++ ',' :: ((' ' :: unsigned m.id) ++ ',' ::
      (unsigned m.seq ++ ',' :: (icmpTstampPrint (word32 m.mem (m.bp + 8)) ++ ',' ::
      (icmpTstampPrint (word32 m.mem (m.bp + 12)) ++ ',' ::
      (icmpTstampPrint (word32 m.mem (m.bp + 16)) ++ unsigned m.plen))))) := by
  have hmessage : icmpMessage m.mem m.bp m.type = tstampreplyPrint m.mem m.bp := by
    simp [h, icmpMessage, icmpEcho, icmpEchoreply, icmpUnreach, icmpRedirect, icmpRouteradvert,
      icmpTimxceed, icmpParamprob, icmpMaskreply, icmpTstamp, icmpTstampreply]
  rw [text_eq, hmessage, text_tstampreplyPrint, idSeq_reply_append]

theorem fields_of_reply (h : m.type = icmpTstampreply) :
    fields m.text = ["tstampreply".toList, ' ' :: unsigned m.id, unsigned m.seq,
      icmpTstampPrint (word32 m.mem (m.bp + 8)), icmpTstampPrint (word32 m.mem (m.bp + 12)),
      icmpTstampPrint (word32 m.mem (m.bp + 16)) ++ unsigned m.plen] := by
  have hid : ',' ∉ ' ' :: unsigned m.id := by
    rw [mem_cons, not_or]
    exact ⟨by decide, not_mem_unsigned (by decide)⟩
  have hlast : ',' ∉ icmpTstampPrint (word32 m.mem (m.bp + 16)) ++ unsigned m.plen := by
    rw [mem_append, not_or]
    exact ⟨comma_not_mem_icmpTstampPrint _, not_mem_unsigned (by decide)⟩
  rw [text_of_reply h, fields_cons (by decide), fields_cons hid,
    fields_cons (not_mem_unsigned (by decide)), fields_cons (comma_not_mem_icmpTstampPrint _),
    fields_cons (comma_not_mem_icmpTstampPrint _), fields_last hlast]

/-! ## What can be told from a record -/

lemma length_milliseconds (tstamp : ℕ) : (padded 3 (tstamp % 1000)).length = 3 := by
  have hlt : tstamp % 1000 < 10 ^ 3 := by omega
  exact length_padded (by decide) hlt

lemma plen_of_time_eq {t t' plen plen' : ℕ}
    (h : icmpTstampPrint t ++ unsigned plen = icmpTstampPrint t' ++ unsigned plen') :
    plen = plen' := by
  have hsplit : clock (t / 1000) ++ '.' :: (padded 3 (t % 1000) ++ unsigned plen) =
      clock (t' / 1000) ++ '.' :: (padded 3 (t' % 1000) ++ unsigned plen') := by
    simpa only [icmpTstampPrint_eq, append_assoc, cons_append] using h
  -- the dot of a time is the only one in the field
  have hbefore : '.' ∉ clock (t / 1000) := not_mem_clock (by decide) (by decide)
  have hbehind : '.' ∉ padded 3 (t % 1000) ++ unsigned plen := by
    rw [mem_append, not_or]
    exact ⟨not_mem_padded (by decide), not_mem_unsigned (by decide)⟩
  have hrest := ((append_cons_inj_of_notMem hbefore hbehind).1 hsplit).2.2
  have hwidth := (length_milliseconds t).trans (length_milliseconds t').symm
  exact unsigned_injective (append_inj_right hrest hwidth)

theorem type_eq_of_text_eq {m n : Message} (hn : n.Numbered)
    (hreply : m.type = icmpTstampreply) (h : m.text = n.text) : n.type = icmpTstampreply := by
  by_contra hne
  -- a reply has six fields, the other records have three
  have hfields := congrArg (fun line => (fields line).length) h
  simp only [fields_of_reply hreply, fields_of_short hn hne] at hfields
  simp at hfields

theorem sameRecord_of_reply {m n : Message} (hm : m.type = icmpTstampreply)
    (hn : n.type = icmpTstampreply) (h : m.text = n.text) : m.SameRecord n := by
  have hfields := congrArg fields h
  rw [fields_of_reply hm, fields_of_reply hn] at hfields
  simp only [List.cons.injEq, true_and, and_true] at hfields
  obtain ⟨hid, hseq, -, -, hlast⟩ := hfields
  exact ⟨hm.trans hn.symm, unsigned_injective hid, unsigned_injective hseq, plen_of_time_eq hlast⟩

theorem seqField_of_reply (h : m.type = icmpTstampreply) : m.SeqField := by
  simp [SeqField, fields_of_reply h]

theorem not_seqField_of_short (h : m.Numbered) (hne : m.type ≠ icmpTstampreply) : ¬ m.SeqField := by
  simp [SeqField, fields_of_short h hne, unsigned_ne_nil]

/-- A record can be read back, with the sequence number in a field of its own, exactly if it is that of
a timestamp reply. -/
theorem record_readable_iff {m : Message} (hm : m.Numbered) :
    (∀ n : Message, n.Numbered → m.text = n.text → m.SameRecord n) ∧ m.SeqField ↔
      m.type = icmpTstampreply := by
  constructor
  · rintro ⟨-, hseq⟩
    by_contra hne
    exact not_seqField_of_short hm hne hseq
  · intro hreply
    refine ⟨fun n hn h => ?_, seqField_of_reply hreply⟩
    exact sameRecord_of_reply hreply (type_eq_of_text_eq hn hreply h) h

/-! ## Samples -/

def sampleMemory (bytes : List UInt8) : Memory := fun i => bytes.getD i 0

/-- Identifier 1, sequence number 1, and the length of a message with 276 bytes of data. -/
def sampleEcho : Message := ⟨sampleMemory [8, 0, 0, 0, 0, 1, 0, 1], 0, 284⟩

def sampleOtherEcho : Message := ⟨sampleMemory [8, 0, 0, 0, 0, 1, 0, 12], 0, 84⟩

def sampleReply : Message :=
  ⟨sampleMemory [14, 0, 0, 0, 0, 1, 0, 12, 0, 0, 0, 1, 0, 0, 0, 2, 0, 0, 0, 3], 0, 20⟩

theorem record_readable_iff_reply :
    sampleReply.Numbered ∧ sampleReply.type = icmpTstampreply ∧
      (∀ n : Message, n.Numbered → sampleReply.text = n.text → sampleReply.SameRecord n) ∧
      sampleReply.SeqField := by
  have hnumbered : sampleReply.Numbered := by decide
  have htype : sampleReply.type = icmpTstampreply := by decide
  exact ⟨hnumbered, htype, (record_readable_iff hnumbered).2 htype⟩

/-- Two echo requests with one record: `request,1,1284`. -/
theorem echo_records_agree :
    sampleEcho.Numbered ∧ sampleOtherEcho.Numbered ∧ sampleEcho.text = "request,1,1284".toList ∧
      sampleOtherEcho.text = "request,1,1284".toList ∧ sampleEcho.seq = 1 ∧
      sampleOtherEcho.seq = 12 ∧ sampleEcho.plen = 284 ∧ sampleOtherEcho.plen = 84 ∧
      ¬ sampleEcho.SeqField := by
  have hecho : sampleEcho.Numbered := by decide
  have hother : sampleOtherEcho.Numbered := by decide
  have hne : sampleEcho.type ≠ icmpTstampreply := by decide
  refine ⟨hecho, hother, by decide +kernel, by decide +kernel, by decide, by decide, rfl, rfl, ?_⟩
  exact not_seqField_of_short hecho hne

end Message

end FreeSense.Filterlog
