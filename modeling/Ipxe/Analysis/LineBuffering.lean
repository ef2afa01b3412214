import Ipxe.Model.Encodings
import Ipxe.Model.Linebuf

/-!
# Lines of a stream

In front of the line that is not complete, the buffer ends with the NUL of a line or is empty, so no
CR of an earlier line is trimmed.
-/

namespace Ipxe.Analysis

open Model List

/-- A line without the CR at its end. -/
def trimCr (line : Bytes) : Bytes :=
  if line.getLast? = some 0x0d then line.dropLast else line

def streamLines (stream : Bytes) : List Bytes := (stream.splitOn 0x0a).dropLast.map trimCr

/-- A chunk is fed until nothing of it is left, and a line is retrieved after each call. -/
def feedChunk : (calls : ℕ) → LineBuffer → Bytes → LineBuffer × List Bytes
  | 0, linebuf, _ => (linebuf, [])
  | calls + 1, linebuf, data =>
    if data = [] then (linebuf, [])
    else
      match lineBuffer linebuf data true with
      | (.error _, linebuf) => (linebuf, [])
      | (.ok consume, linebuf) =>
        let (fed, lines) := feedChunk calls linebuf (data.drop consume)
        (fed, (bufferedLine linebuf).toList ++ lines)

/-- The lines that are retrieved while chunks are fed. -/
def feedChunks : LineBuffer → List Bytes → List Bytes
  | _, [] => []
  | linebuf, chunk :: chunks =>
    let (fed, lines) := feedChunk (chunk.length + 1) linebuf chunk
    lines ++ feedChunks fed chunks

variable {line : Bytes}

theorem streamLines_of_not_mem (h : 0x0a ∉ line) : streamLines line = [] := by
  have hone : (intercalate [0x0a] [line]).splitOn 0x0a = [line] :=
    splitOn_intercalate 0x0a (by simpa using h) (cons_ne_nil _ _)
  rw [intercalate_singleton] at hone
  rw [streamLines, hone]
  rfl

theorem streamLines_append_cons (h : 0x0a ∉ line) (rest : Bytes) :
    streamLines (line ++ 0x0a :: rest) = trimCr line :: streamLines rest := by
  rw [streamLines, splitOn_append_cons_self_of_not_mem h,
    dropLast_cons_of_ne_nil (splitOn_ne_nil _ _)]
  rfl

/-- The buffer holds an incomplete line behind the completed ones. -/
def Holding (linebuf : LineBuffer) (line : Bytes) : Prop :=
  0 ∉ line ∧ 0x0a ∉ line ∧
    ∃ front, linebuf.data = front ++ line ∧ (front = [] ∨ front.getLast? = some 0)

theorem terminateLine_concat (before : Bytes) (c : UInt8) :
    terminateLine (before ++ [c, 0x0a]) =
      if c = 0x0d then before ++ [0] else before ++ [c, 0] := by
  have hset : (before ++ [c, 0x0a]).set (before.length + 1) 0 = before ++ [c, 0] := by
    rw [set_append_right _ _ (by omega), Nat.add_sub_cancel_left]
    rfl
  have hget : (before ++ [c, 0])[before.length]? = some c := by simp
  have htake : ((before ++ [c, 0]).take (before.length + 1)).set before.length 0 = before ++ [0] := by
    rw [take_length_add_append, set_append_right _ _ le_rfl, Nat.sub_self]
    rfl
  simp only [terminateLine, length_append, length_cons, length_nil, Nat.reduceAdd,
    Nat.reduceSubDiff, hset, hget, htake]
  simp

theorem terminateLine_eq {front : Bytes} (h : front = [] ∨ front.getLast? = some 0) :
    terminateLine (front ++ line ++ [0x0a]) = front ++ trimCr line ++ [0] := by
  rcases eq_nil_or_concat' line with rfl | ⟨before, c, rfl⟩
  · rcases h with rfl | h
    · rfl
    · obtain ⟨before, rfl⟩ := getLast?_eq_some_iff.1 h
      have hconcat := terminateLine_concat before 0
      simpa [trimCr] using hconcat
  · have hconcat := terminateLine_concat (front ++ before) c
    simp only [append_assoc, cons_append, nil_append] at hconcat ⊢
    rw [hconcat, trimCr, dropLast_concat]
    split_ifs <;> simp_all

theorem rtakeWhile_line {front : Bytes} (h : front = [] ∨ front.getLast? = some 0)
    (hline : 0 ∉ line) : (front ++ line).rtakeWhile (· ≠ 0) = line := by
  have hfront : front.reverse.takeWhile (· ≠ 0) = [] := by
    rcases h with rfl | h
    · rfl
    · obtain ⟨before, rfl⟩ := getLast?_eq_some_iff.1 h
      simp
  have hchars : ∀ char ∈ line.reverse, decide (char ≠ 0) = true := fun char hchar =>
    decide_eq_true fun hzero => hline (hzero ▸ mem_reverse.1 hchar)
  rw [rtakeWhile, reverse_append, takeWhile_append_of_pos hchars, hfront, append_nil,
    reverse_reverse]

section

variable {linebuf : LineBuffer} {line : Bytes}

theorem lineBuffer_open (h : Holding linebuf line) {data : Bytes} (hnul : 0 ∉ data)
    (heol : 0x0a ∉ data) :
    ∃ fed, lineBuffer linebuf data true = (.ok data.length, fed) ∧ bufferedLine fed = none ∧
      Holding fed (line ++ data) := by
  obtain ⟨hline, hopen, front, hdata, hfront⟩ := h
  refine ⟨⟨linebuf.data ++ data, data.length⟩, ?_, ?_, by simp [hline, hnul], by simp [hopen, heol],
    front, by rw [hdata, append_assoc], hfront⟩
  · simp [lineBuffer, heol, hnul]
  · rcases eq_nil_or_concat' data with rfl | ⟨before, c, rfl⟩
    · rfl
    · have hc : c ≠ 0 := by
        rintro rfl
        exact hnul (mem_append_right _ (mem_singleton_self 0))
      rw [bufferedLine, ← append_assoc, if_pos (.inr (by simpa using hc))]

theorem lineBuffer_complete (h : Holding linebuf line) {text : Bytes} (hnul : 0 ∉ text)
    (heol : 0x0a ∉ text) (rest : Bytes) :
    ∃ fed, lineBuffer linebuf (text ++ 0x0a :: rest) true = (.ok (text.length + 1), fed) ∧
      bufferedLine fed = some (trimCr (line ++ text)) ∧ Holding fed [] := by
  obtain ⟨hline, hopen, front, hdata, hfront⟩ := h
  have hconsume : (text ++ 0x0a :: rest).idxOf 0x0a = text.length := by
    rw [idxOf_append_of_notMem heol, idxOf_cons_self, add_zero]
  have htake : (text ++ 0x0a :: rest).take (text.length + 1) = text ++ [0x0a] :=
    take_length_add_append 1
  have hchars : 0 ∉ trimCr (line ++ text) := by
    rw [trimCr]
    split_ifs
    · exact fun hmem => absurd (mem_of_mem_dropLast hmem) (by simp [hline, hnul])
    · simp [hline, hnul]
  refine ⟨⟨front ++ trimCr (line ++ text) ++ [0], text.length + 1⟩, ?_, ?_, not_mem_nil,
    not_mem_nil, _, (append_nil _).symm, .inr getLast?_concat⟩
  · have hmem : 0x0a ∈ text ++ 0x0a :: rest := mem_append_right _ mem_cons_self
    have hclean : 0 ∉ text ++ [0x0a] := by simp [hnul]
    have hterminate : terminateLine (front ++ (line ++ text) ++ [0x0a]) = _ :=
      terminateLine_eq hfront
    simp only [lineBuffer, if_pos hmem, hconsume, htake, if_neg hclean, hdata]
    rw [← hterminate]
    simp
  · rw [bufferedLine, dropLast_concat, rtakeWhile_line hfront hchars, if_neg (by simp)]

theorem feedChunk_lines {calls : ℕ} {data : Bytes} (h : Holding linebuf line)
    (hnul : 0 ∉ data) (hcalls : data.length ≤ calls) :
    ∃ line', Holding (feedChunk calls linebuf data).1 line' ∧ ∀ more,
      streamLines (line ++ data ++ more) =
        (feedChunk calls linebuf data).2 ++ streamLines (line' ++ more) := by
  induction calls generalizing linebuf line data with
  | zero =>
    obtain rfl := eq_nil_of_length_eq_zero (by omega : data.length = 0)
    exact ⟨line, h, fun more => by rw [append_nil]; rfl⟩
  | succ calls ih =>
    by_cases hnil : data = []
    · rw [feedChunk, if_pos hnil, hnil]
      exact ⟨line, h, fun more => by rw [append_nil]; rfl⟩
    by_cases heol : 0x0a ∈ data
    · obtain ⟨text, rest, rfl, htext⟩ := eq_append_cons_of_mem heol
      simp only [mem_append, mem_cons, not_or] at hnul
      obtain ⟨fed, hbuffer, hline, hfed⟩ := lineBuffer_complete h hnul.1 htext rest
      obtain ⟨line', hline', hlines⟩ := @ih fed [] rest hfed hnul.2.2 (by
        rw [length_append, length_cons] at hcalls
        omega)
      have hdrop : (text ++ 0x0a :: rest).drop (text.length + 1) = rest := drop_length_add_append 1
      have hfeed : feedChunk (calls + 1) linebuf (text ++ 0x0a :: rest) =
          ((feedChunk calls fed rest).1, trimCr (line ++ text) :: (feedChunk calls fed rest).2) := by
        rw [feedChunk, if_neg hnil]
        simp only [hbuffer, hdrop, hline]
        rfl
      rw [hfeed]
      refine ⟨line', hline', fun more => ?_⟩
      have hopen : 0x0a ∉ line ++ text := by simp [h.2.1, htext]
      have hsplit := streamLines_append_cons hopen (rest ++ more)
      rw [← nil_append (rest ++ more), ← append_assoc [] rest more, hlines] at hsplit
      simpa using hsplit
    · obtain ⟨fed, hbuffer, hnone, hfed⟩ := lineBuffer_open h hnul heol
      obtain ⟨line', hline', hlines⟩ := @ih fed (line ++ data) [] hfed not_mem_nil (Nat.zero_le _)
      have hfeed : feedChunk (calls + 1) linebuf data = feedChunk calls fed [] := by
        rw [feedChunk, if_neg hnil]
        simp only [hbuffer, drop_length, hnone]
        rfl
      rw [append_nil] at hlines
      rw [hfeed]
      exact ⟨line', hline', hlines⟩

end

theorem feedChunks_lines {linebuf : LineBuffer} (h : Holding linebuf line)
    {chunks : List Bytes} (hnul : ∀ chunk ∈ chunks, 0 ∉ chunk) :
    feedChunks linebuf chunks = streamLines (line ++ chunks.flatten) := by
  induction chunks generalizing linebuf line with
  | nil => rw [flatten_nil, append_nil, streamLines_of_not_mem h.2.1]; rfl
  | cons chunk chunks ih =>
    obtain ⟨hfirst, hrest⟩ := forall_mem_cons.1 hnul
    obtain ⟨line', hfed, hlines⟩ := feedChunk_lines h hfirst (Nat.le_succ _)
    rw [flatten_cons, ← append_assoc, hlines, ← ih hfed hrest]
    rfl

/-- **Line buffering.**  The lines retrieved are those of the stream, however it is cut, and a call
with a NUL in front of the line end, or without memory, fails and changes nothing.
[core/linebuf.c:45-143] -/
theorem line_buffering (chunks : List Bytes) (hnul : ∀ chunk ∈ chunks, 0 ∉ chunk) :
    feedChunks {} chunks = streamLines chunks.flatten ∧
      ∀ (linebuf : LineBuffer) (data : Bytes) (allocated : Bool),
        allocated = false ∨ 0 ∈ data.take (data.idxOf 0x0a) →
          (lineBuffer linebuf data allocated).2 = linebuf ∧
            ∀ consumed, (lineBuffer linebuf data allocated).1 ≠ .ok consumed := by
  refine ⟨feedChunks_lines ⟨not_mem_nil, not_mem_nil, [], rfl, Or.inl rfl⟩ hnul, ?_⟩
  intro linebuf data allocated hfails
  have hconsume : data.idxOf 0x0a ≤ if 0x0a ∈ data then data.idxOf 0x0a + 1 else data.length := by
    split_ifs
    · exact Nat.le_succ _
    · exact idxOf_le_length
  simp only [lineBuffer]
  by_cases hzero : 0 ∈ data.take (if 0x0a ∈ data then data.idxOf 0x0a + 1 else data.length)
  · rw [if_pos hzero]
    exact ⟨rfl, nofun⟩
  · obtain rfl := hfails.resolve_right fun hmem =>
      hzero (take_subset_take_left _ hconsume hmem)
    rw [if_neg hzero]
    exact ⟨rfl, nofun⟩

/-- A CR and its LF in different chunks. -/
theorem line_buffering_cut :
    feedChunks {} [ascii "a\r", ascii "\nb\n\nc"] = [ascii "a", ascii "b", []] :=
  (line_buffering _ (by decide)).1.trans (by decide)

end Ipxe.Analysis
