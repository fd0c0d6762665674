import LocalAgent.Lib.Stateful
import LocalAgent.Mcp.Session

/-!
# Lines of an MCP server (`agent-mcp-adapters/src/lib.rs:572-604`)

`read_line` looks at the pipe buffer by buffer: it stops at a newline, refuses a line as soon as the
buffers in hand are too long, and counts the bytes of the session. Where the buffers begin and end does
not show in what it answers, up to the first call that fails (`lines_read`). After that it does: a line that
was refused is left in the buffer, or was consumed in part, so that another call reads the same line again
or the rest of it (`rest_of_line_read`). The client makes no call after one that failed.
-/
namespace LocalAgent.Mcp

/-! ## Repeated calls -/

/-- The answers to so many calls of `read_line`, one after the other. -/
def readResults : Nat → Session → List (Except McpAdapterError (List UInt8))
  | 0, _ => []
  | n + 1, s =>
    match readLine s with
    | .ok line s' => .ok line :: readResults n s'
    | .error e s' => .error e :: readResults n s'

/-- The answers up to the first failure, with it. -/
def upToFailure {ε α : Type} : List (Except ε α) → List (Except ε α)
  | [] => []
  | .ok a :: rest => .ok a :: upToFailure rest
  | .error e :: _ => [.error e]

/-! ## What a server delivers -/

/-- The server writes these bytes, in some pieces, and ends; the caller waits for all of them. -/
def Peer.Delivers (peer : Peer) (bytes : List UInt8) : Prop :=
  ∃ pieces : List (List UInt8), (∀ p ∈ pieces, p ≠ []) ∧ pieces.flatten = bytes ∧
    peer.chunks = pieces.map some ++ [some []] ∧ pieces.length < peer.patience

/-- The bytes to come: those in the buffer and those of the server. -/
def Session.Holds (s : Session) (bytes : List UInt8) : Prop :=
  ∃ later, s.peer.Delivers later ∧ s.buffer ++ later = bytes

/-- The lines of a stream. What comes after the last newline is cut off by the end. -/
def linesOf (bytes : List UInt8) : List (List UInt8) := (bytes.splitOn 10).dropLast

/-- A line is read: it fits with its newline, it is UTF-8, and with the lines before it the session stays
within its total. -/
def Sound (most read : Nat) (lines : List (List UInt8)) (i : Nat) : Prop :=
  ∃ line, lines[i]? = some line ∧ line.length + 1 ≤ most ∧
    (ByteArray.mk line.toArray).validateUTF8 = true ∧
    read + ((lines.take (i + 1)).map (·.length + 1)).sum ≤ most * maxProtocolMessages

variable {most read fuel : Nat} {s : Session} {bytes line word rest : List UInt8}
  {lines : List (List UInt8)}

/-! ## Lines of a stream -/

theorem linesOf_open (h : 10 ∉ bytes) : linesOf bytes = [] := by
  rw [linesOf, List.splitOn_eq_singleton h]
  rfl

theorem linesOf_line (h : 10 ∉ word) : linesOf (word ++ 10 :: rest) = word :: linesOf rest := by
  rw [linesOf, List.splitOn_append_cons_self_of_not_mem h,
    List.dropLast_cons_of_ne_nil (List.splitOn_ne_nil 10 rest), linesOf]

theorem not_sound_nil {i : Nat} : ¬ Sound most read [] i := by
  rintro ⟨line, h, -⟩
  simp at h

theorem sound_zero :
    Sound most read (line :: lines) 0 ↔ line.length + 1 ≤ most ∧
      (ByteArray.mk line.toArray).validateUTF8 = true ∧
      read + (line.length + 1) ≤ most * maxProtocolMessages := by
  simp [Sound]

theorem sound_succ {i : Nat} :
    Sound most read (line :: lines) (i + 1) ↔ Sound most (read + (line.length + 1)) lines i := by
  simp only [Sound, List.getElem?_cons_succ, List.take_succ_cons, List.map_cons, List.sum_cons,
    Nat.add_assoc]

/-! ## One buffer -/

/-- What `read_line` does not change while it looks for the end of a line. -/
structure Session.Continues (s s' : Session) : Prop where
  maxMessageBytes : s'.maxMessageBytes = s.maxMessageBytes
  bytesRead : s'.bytesRead = s.bytesRead

theorem Session.Continues.trans {s s' s'' : Session} (h : s.Continues s') (h' : s'.Continues s'') :
    s.Continues s'' :=
  ⟨h'.1.trans h.1, h'.2.trans h.2⟩

theorem fillBuf_of_buffer (h : s.buffer ≠ []) : fillBuf s = .ok s.buffer s := by
  have hempty : s.buffer.isEmpty = false := by simpa using h
  simp [fillBuf, bind, EStateM.bind, Stateful.get_apply, pure, EStateM.pure, hempty]

/-- There are bytes to come: a buffer that is not empty, and still the same bytes. -/
theorem fillBuf_of_holds (h : s.Holds bytes) (hne : bytes ≠ []) :
    ∃ s', fillBuf s = .ok s'.buffer s' ∧ s'.buffer ≠ [] ∧ s'.Holds bytes ∧ s.Continues s' := by
  by_cases hbuffer : s.buffer = []
  · obtain ⟨later, ⟨pieces, hpieces, hflat, hchunks, hpatience⟩, hbytes⟩ := h
    obtain ⟨⟨chunks, writes, patience⟩, buffer, bytesRead, max, seen, transcript⟩ := s
    simp only at hbuffer hchunks hpatience hbytes
    subst hbuffer hchunks
    cases pieces with
    | nil =>
      rw [← hbytes, ← hflat] at hne
      exact absurd rfl hne
    | cons piece pieces =>
      obtain ⟨left, rfl⟩ := Nat.exists_eq_add_of_lt hpatience
      refine ⟨⟨⟨pieces.map some ++ [some []], writes, (piece :: pieces).length + left⟩, piece, bytesRead,
        max, seen, transcript⟩, rfl, hpieces piece List.mem_cons_self,
        ⟨pieces.flatten, ⟨pieces, fun p hp => hpieces p (List.mem_cons_of_mem piece hp), rfl, rfl, ?_⟩,
          ?_⟩, rfl, rfl⟩
      · simp only [List.length_cons]
        omega
      · rw [← hbytes, ← hflat]
        rfl
  · exact ⟨s, fillBuf_of_buffer hbuffer, hbuffer, h, rfl, rfl⟩

theorem fillBuf_of_end (h : s.Holds []) : ∃ s', fillBuf s = .ok [] s' := by
  obtain ⟨later, ⟨pieces, hpieces, hflat, hchunks, hpatience⟩, hbytes⟩ := h
  obtain ⟨⟨chunks, writes, patience⟩, buffer, bytesRead, max, seen, transcript⟩ := s
  obtain ⟨hbuffer, rfl⟩ := List.append_eq_nil_iff.mp hbytes
  simp only at hbuffer hchunks hpatience
  subst hbuffer hchunks
  cases pieces with
  | nil =>
    obtain ⟨left, rfl⟩ := Nat.exists_eq_add_of_lt hpatience
    exact ⟨_, rfl⟩
  | cons piece pieces =>
    simp only [List.flatten_cons, List.append_eq_nil_iff] at hflat
    exact absurd hflat.1 (hpieces piece List.mem_cons_self)

/-- One turn of the loop, on a buffer of which `take` bytes are of this line. -/
theorem readLineLoop_step {s' : Session} {take : Nat} (hfill : fillBuf s = .ok s'.buffer s')
    (hne : s'.buffer ≠ [])
    (htake : (s'.buffer.findIdx? (· = 10)).elim s'.buffer.length (· + 1) = take) :
    readLineLoop (fuel + 1) line s =
      if line.length + take > s'.maxMessageBytes then .error .malformedResponse s'
      else if (line ++ s'.buffer.take take).getLast? = some 10 then
        .ok (line ++ s'.buffer.take take) { s' with buffer := s'.buffer.drop take }
      else readLineLoop fuel (line ++ s'.buffer.take take) { s' with buffer := s'.buffer.drop take } := by
  have hempty : s'.buffer.isEmpty = false := by simpa using hne
  rw [readLineLoop]
  simp only [bind, EStateM.bind, hfill, hempty, htake, Bool.false_eq_true, if_false,
    Stateful.get_apply]
  split
  · rfl
  · change (if (line ++ s'.buffer.take take).getLast? = some 10 then pure (line ++ s'.buffer.take take)
      else readLineLoop fuel (line ++ s'.buffer.take take) : SessionM (List UInt8)) _ = _
    split
    · rfl
    · rfl

theorem Session.Holds.consume {n : Nat} (h : s.Holds bytes) (hn : n ≤ s.buffer.length) :
    Session.Holds { s with buffer := s.buffer.drop n } (bytes.drop n) := by
  obtain ⟨later, hlater, rfl⟩ := h
  exact ⟨later, hlater, (List.drop_append_of_le_length hn).symm⟩

/-! ## One line -/

/-- A buffer that ends before the line does, and is part of it. -/
theorem readLineLoop_part {s' : Session} {later : List UInt8} (hfill : fillBuf s = .ok s'.buffer s')
    (hne : s'.buffer ≠ []) (hnone : 10 ∉ s'.buffer) (hholds : s'.Holds (s'.buffer ++ later)) :
    ∃ s'', s''.Holds later ∧ s'.Continues s'' ∧
      readLineLoop (fuel + 1) line s =
        if line.length + s'.buffer.length > s'.maxMessageBytes then .error .malformedResponse s'
        else readLineLoop fuel (line ++ s'.buffer) s'' := by
  have hfind : s'.buffer.findIdx? (· = 10) = none := by
    rw [List.findIdx?_eq_none_iff]
    intro b hb
    simp only [decide_eq_false_iff_not]
    rintro rfl
    exact hnone hb
  have htake : (s'.buffer.findIdx? (· = 10)).elim s'.buffer.length (· + 1) = s'.buffer.length := by
    rw [hfind]
    rfl
  have hlast : (line ++ s'.buffer).getLast? ≠ some 10 := by
    rw [List.getLast?_append_of_ne_nil line hne]
    intro h
    exact hnone (List.mem_of_getLast? h)
  refine ⟨{ s' with buffer := s'.buffer.drop s'.buffer.length }, ?_, ⟨rfl, rfl⟩, ?_⟩
  · simpa using hholds.consume (Nat.le_refl _)
  · rw [readLineLoop_step hfill hne htake, List.take_length, if_neg hlast]

/-- **A line that ends** is read if it fits with its newline. -/
theorem readLineLoop_line (fuel : Nat) (line : List UInt8) (hfuel : s.maxMessageBytes < line.length + fuel) (hword : 10 ∉ word)
    (h : s.Holds (word ++ 10 :: rest)) :
    if line.length + (word.length + 1) ≤ s.maxMessageBytes then
      ∃ s', readLineLoop fuel line s = .ok (line ++ (word ++ [10])) s' ∧ s'.Holds rest ∧ s.Continues s'
    else ∃ s', readLineLoop fuel line s = .error .malformedResponse s' := by
  induction fuel generalizing line word s with
  | zero =>
    rw [if_neg (by omega)]
    exact ⟨s, rfl⟩
  | succ fuel ih =>
    obtain ⟨s', hfill, hne, hholds, hsame⟩ := fillBuf_of_holds h (by simp)
    have hmax := hsame.maxMessageBytes
    obtain ⟨later, hlater, hbytes⟩ := hholds
    by_cases hmem : 10 ∈ s'.buffer
    · -- the newline is in this buffer
      obtain ⟨first, more, hbuffer, hfirst⟩ := List.eq_append_cons_of_mem hmem
      obtain ⟨rfl, hmore⟩ : first = word ∧ more ++ later = rest := by
        rw [hbuffer, List.append_assoc, List.cons_append] at hbytes
        have hsplit := congrArg (List.splitOn 10) hbytes
        rw [List.splitOn_append_cons_self_of_not_mem hfirst,
          List.splitOn_append_cons_self_of_not_mem hword] at hsplit
        obtain rfl := (List.cons.inj hsplit).1
        exact ⟨rfl, (List.cons.inj (List.append_cancel_left hbytes)).2⟩
      have hfind : s'.buffer.findIdx? (· = 10) = some first.length := by
        rw [hbuffer, List.findIdx?_append, List.findIdx?_eq_none_iff.mpr]
        · simp [List.findIdx?_cons]
        · intro b hb
          simp only [decide_eq_false_iff_not]
          rintro rfl
          exact hfirst hb
      have htake : (s'.buffer.findIdx? (· = 10)).elim s'.buffer.length (· + 1) = first.length + 1 := by
        rw [hfind]
        rfl
      have hline : s'.buffer.take (first.length + 1) = first ++ [10] := by
        rw [hbuffer, List.take_length_add_append]
        rfl
      have hlast : (line ++ (first ++ [10])).getLast? = some 10 := by
        rw [← List.append_assoc, List.getLast?_concat]
      rw [readLineLoop_step hfill hne htake, hline, if_pos hlast]
      split
      · rw [if_neg (by omega)]
        refine ⟨_, rfl, ?_, hmax, hsame.bytesRead⟩
        have hdrop := Session.Holds.consume ⟨later, hlater, hbytes⟩
          (n := first.length + 1) (by rw [hbuffer]; simp)
        rwa [List.drop_length_add_append] at hdrop
      · rw [if_pos (by omega)]
        exact ⟨s', rfl⟩
    · -- the whole buffer belongs to the line
      obtain ⟨word', rfl, hrest⟩ : ∃ word', word = s'.buffer ++ word' ∧ later = word' ++ 10 :: rest := by
        rcases List.append_eq_append_iff.mp hbytes with ⟨w, hw, hl⟩ | ⟨w, hb, hl⟩
        · exact ⟨w, hw, hl⟩
        · cases w with
          | nil => exact ⟨[], by simpa using hb.symm, by simpa using hl.symm⟩
          | cons b w =>
            obtain ⟨rfl, -⟩ := List.cons.inj hl
            exact absurd (hb ▸ by simp) hmem
      subst hrest
      obtain ⟨s'', hholds', hsame', hstep⟩ := readLineLoop_part hfill hne hmem ⟨_, hlater, rfl⟩
      rw [hstep, hmax, List.length_append]
      by_cases hlong : line.length + s'.buffer.length > s.maxMessageBytes
      · rw [if_pos hlong, if_neg (by omega)]
        exact ⟨s', rfl⟩
      · rw [if_neg hlong]
        have hword' : 10 ∉ word' := fun hm => hword (List.mem_append_right _ hm)
        have hpos := List.length_pos_of_ne_nil hne
        have hmax' : s''.maxMessageBytes = s.maxMessageBytes := hsame'.maxMessageBytes.trans hmax
        have hrec := @ih s'' word' (line ++ s'.buffer) (by rw [hmax', List.length_append]; omega)
          hword' hholds'
        rw [hmax', List.length_append, Nat.add_assoc, ← Nat.add_assoc s'.buffer.length] at hrec
        by_cases hfits : line.length + (s'.buffer.length + word'.length + 1) ≤ s.maxMessageBytes
        · rw [if_pos hfits] at hrec ⊢
          obtain ⟨t, ht, hrest, hcont⟩ := hrec
          exact ⟨t, by simpa using ht, hrest, (hsame.trans hsame').trans hcont⟩
        · rw [if_neg hfits] at hrec ⊢
          exact hrec

/-- A line that is cut off by the end of the stream. -/
theorem readLineLoop_cut (fuel : Nat) (line : List UInt8) (hword : 10 ∉ word) (h : s.Holds word) :
    ∃ s', readLineLoop fuel line s = .error .malformedResponse s' := by
  induction fuel generalizing line word s with
  | zero => exact ⟨s, rfl⟩
  | succ fuel ih =>
    by_cases hempty : word = []
    · subst hempty
      obtain ⟨s', hfill⟩ := fillBuf_of_end h
      refine ⟨s', ?_⟩
      rw [readLineLoop]
      simp only [bind, EStateM.bind, hfill]
      rfl
    · obtain ⟨s', hfill, hne, ⟨later, hlater, rfl⟩, -⟩ := fillBuf_of_holds h hempty
      have hnone : 10 ∉ s'.buffer := fun hm => hword (List.mem_append_left _ hm)
      obtain ⟨s'', hholds, -, hstep⟩ := readLineLoop_part hfill hne hnone ⟨_, hlater, rfl⟩
      rw [hstep]
      split
      · exact ⟨s', rfl⟩
      · exact ih _ (fun hm => hword (List.mem_append_right _ hm)) hholds

/-! ## One call -/

/-- **A call of `read_line`** on a stream that begins with this line. -/
theorem readLine_line (hword : 10 ∉ word) (h : s.Holds (word ++ 10 :: rest)) :
    if word.length + 1 ≤ s.maxMessageBytes ∧ (ByteArray.mk word.toArray).validateUTF8 = true ∧
        s.bytesRead + (word.length + 1) ≤ s.maxMessageBytes * maxProtocolMessages then
      ∃ s', readLine s = .ok word s' ∧ s'.Holds rest ∧ s'.maxMessageBytes = s.maxMessageBytes ∧
        s'.bytesRead = s.bytesRead + (word.length + 1)
    else ∃ s', readLine s = .error .malformedResponse s' := by
  have hloop := readLineLoop_line (s.maxMessageBytes + 1) [] (by simp) hword h
  rw [List.length_nil, Nat.zero_add, List.nil_append] at hloop
  by_cases hlong : word.length + 1 ≤ s.maxMessageBytes
  · rw [if_pos hlong] at hloop
    obtain ⟨s', hs', hholds, hmax, hread⟩ := hloop
    have hlength : (word ++ [10]).length = word.length + 1 := by simp
    have hcall : readLine s =
        if s.bytesRead + (word.length + 1) > s.maxMessageBytes * maxProtocolMessages then
          .error .malformedResponse { s' with bytesRead := s'.bytesRead + (word.length + 1) }
        else if (ByteArray.mk word.toArray).validateUTF8 = true then
          .ok word { s' with bytesRead := s'.bytesRead + (word.length + 1) }
        else .error .malformedResponse { s' with bytesRead := s'.bytesRead + (word.length + 1) } := by
      unfold readLine
      simp only [bind, EStateM.bind, Stateful.get_apply, Stateful.modify_apply, hs', hlength, hmax, hread,
        List.dropLast_concat]
      split
      · rfl
      · split
        · rfl
        · rfl
    rw [hcall]
    by_cases htotal : s.bytesRead + (word.length + 1) > s.maxMessageBytes * maxProtocolMessages
    · rw [if_pos htotal, if_neg (by omega)]
      exact ⟨_, rfl⟩
    · rw [if_neg htotal]
      by_cases hutf8 : (ByteArray.mk word.toArray).validateUTF8 = true
      · rw [if_pos hutf8, if_pos ⟨hlong, hutf8, by omega⟩]
        exact ⟨_, rfl, hholds, hmax, by rw [← hread]⟩
      · rw [if_neg hutf8, if_neg fun h => hutf8 h.2.1]
        exact ⟨_, rfl⟩
  · rw [if_neg hlong] at hloop
    rw [if_neg fun h => hlong h.1]
    obtain ⟨s', hs'⟩ := hloop
    refine ⟨s', ?_⟩
    unfold readLine
    simp only [bind, EStateM.bind, Stateful.get_apply, hs']

theorem readLine_cut (hbytes : 10 ∉ bytes) (h : s.Holds bytes) :
    ∃ s', readLine s = .error .malformedResponse s' := by
  obtain ⟨s', hs'⟩ := readLineLoop_cut (s.maxMessageBytes + 1) [] hbytes h
  refine ⟨s', ?_⟩
  unfold readLine
  simp only [bind, EStateM.bind, Stateful.get_apply, hs']

/-! ## All calls -/

/-- What repeated calls answer: the lines before `k`, and a failure. -/
def answers (lines : List (List UInt8)) (k : Nat) : List (Except McpAdapterError (List UInt8)) :=
  (lines.take k).map .ok ++ [.error .malformedResponse]

theorem upToFailure_of_error {s' : Session} (n : Nat) (h : readLine s = .error .malformedResponse s') :
    upToFailure (readResults n s) = (answers lines 0).take n := by
  cases n with
  | zero => rfl
  | succ n =>
    simp only [readResults, h, upToFailure, answers, List.take_zero, List.map_nil, List.nil_append,
      List.take_succ_cons, List.take_nil]

/-- The first line that is not sound, for a session that has read so many bytes. -/
theorem results_of_holds (most read : Nat) (bytes : List UInt8) :
    ∃ k, (∀ i < k, Sound most read (linesOf bytes) i) ∧ ¬ Sound most read (linesOf bytes) k ∧
      ∀ (s : Session) (n : Nat), s.Holds bytes → s.maxMessageBytes = most → s.bytesRead = read →
        upToFailure (readResults n s) = (answers (linesOf bytes) k).take n := by
  induction hn : bytes.length using Nat.strong_induction_on generalizing bytes read with
  | h length ih =>
  by_cases hmem : 10 ∈ bytes
  · obtain ⟨word, rest, rfl, hword⟩ := List.eq_append_cons_of_mem hmem
    rw [linesOf_line hword]
    by_cases hsound : Sound most read (word :: linesOf rest) 0
    · -- the line is read, and the others follow from it
      obtain ⟨k, hbefore, hk, hresults⟩ := ih rest.length (by rw [← hn]; simp; omega)
        (read + (word.length + 1)) rest rfl
      refine ⟨k + 1, ?_, fun h => hk (sound_succ.mp h), ?_⟩
      · intro i hi
        cases i with
        | zero => exact hsound
        | succ i => exact sound_succ.mpr (hbefore i (by omega))
      · intro s n hs hmost hread
        have hcall := readLine_line hword hs
        rw [hmost, hread, if_pos (sound_zero.mp hsound)] at hcall
        obtain ⟨s', hs', hholds, hmost', hread'⟩ := hcall
        cases n with
        | zero => rfl
        | succ n =>
          simp only [readResults, hs', upToFailure, hresults s' n hholds hmost' hread', answers,
            List.take_succ_cons, List.map_cons, List.cons_append]
    · refine ⟨0, fun i hi => absurd hi (Nat.not_lt_zero i), hsound, ?_⟩
      intro s n hs hmost hread
      have hcall := readLine_line hword hs
      rw [hmost, hread, if_neg fun h => hsound (sound_zero.mpr h)] at hcall
      obtain ⟨s', hs'⟩ := hcall
      exact upToFailure_of_error n hs'
  · rw [linesOf_open hmem]
    refine ⟨0, fun i hi => absurd hi (Nat.not_lt_zero i), not_sound_nil, ?_⟩
    intro s n hs _ _
    obtain ⟨s', hs'⟩ := readLine_cut hmem hs
    exact upToFailure_of_error n hs'

/-- **Reading lines does not depend on the pieces**: for every stream there is one number of lines, those
before the first that is not sound, such that the calls answer these lines and then fail, however the
stream is cut. -/
theorem lines_read (config : StdioServerConfig) (bytes : List UInt8) :
    ∃ k, (∀ i < k, Sound config.maxMessageBytes 0 (linesOf bytes) i) ∧
      ¬ Sound config.maxMessageBytes 0 (linesOf bytes) k ∧
      ∀ (peer : Peer) (n : Nat), peer.Delivers bytes →
        upToFailure (readResults n (.spawn config peer)) = (answers (linesOf bytes) k).take n := by
  obtain ⟨k, hbefore, hk, hresults⟩ := results_of_holds config.maxMessageBytes 0 bytes
  exact ⟨k, hbefore, hk, fun peer n h => hresults _ n ⟨bytes, h, rfl⟩ rfl rfl⟩

/-- `abcde`, a newline, and a second line that is cut off, in two pieces. -/
theorem lines_read_in_pieces :
    upToFailure (readResults 3 (.spawn .new
      ⟨[some [97, 98, 99], some [100, 101, 10, 102], some []], [], 3⟩)) =
        [.ok [97, 98, 99, 100, 101], .error .malformedResponse] := by
  obtain ⟨k, hbefore, hk, hresults⟩ := lines_read .new [97, 98, 99, 100, 101, 10, 102]
  have hlines : linesOf [97, 98, 99, 100, 101, 10, 102] = [[97, 98, 99, 100, 101]] :=
    (@linesOf_line [97, 98, 99, 100, 101] [102] (by decide)).trans (congrArg _ (linesOf_open (by decide)))
  rw [hlines] at hbefore hk hresults
  have hdelivers : Peer.Delivers ⟨[some [97, 98, 99], some [100, 101, 10, 102], some []], [], 3⟩
      [97, 98, 99, 100, 101, 10, 102] :=
    ⟨[[97, 98, 99], [100, 101, 10, 102]], by decide, rfl, rfl, by decide⟩
  have hfirst : Sound StdioServerConfig.new.maxMessageBytes 0 [[97, 98, 99, 100, 101]] 0 :=
    sound_zero.mpr ⟨by decide, rfl, by decide⟩
  match k with
  | 0 => exact absurd hfirst hk
  | 1 => exact hresults _ 3 hdelivers
  | k + 2 => exact absurd (sound_succ.mp (hbefore 1 (by omega))) not_sound_nil

/-! ## After a failure -/

/-- Six bytes and a newline, of which a session of four bytes a message reads none. -/
def tooLong : List UInt8 := [97, 97, 97, 97, 97, 97, 10]

def shortMessages : StdioServerConfig := .withLimits 4 1 1 1

def inOnePiece : Peer := ⟨[some tooLong, some []], [], 2⟩

def inTwoPieces : Peer := ⟨[some [97, 97, 97], some [97, 97, 97, 10], some []], [], 3⟩

/-- **After a failure the pieces show**: the second call reads the rest of the line that the first one
refused, if the line came in two pieces. -/
theorem rest_of_line_read :
    inOnePiece.Delivers tooLong ∧ inTwoPieces.Delivers tooLong ∧
      readResults 2 (.spawn shortMessages inOnePiece) =
        [.error .malformedResponse, .error .malformedResponse] ∧
      readResults 2 (.spawn shortMessages inTwoPieces) =
        [.error .malformedResponse, .ok [97, 97, 97]] := by
  refine ⟨⟨[tooLong], by decide, rfl, rfl, by decide⟩,
    ⟨[[97, 97, 97], [97, 97, 97, 10]], by decide, rfl, rfl, by decide⟩, rfl, ?_⟩
  rfl

end LocalAgent.Mcp
