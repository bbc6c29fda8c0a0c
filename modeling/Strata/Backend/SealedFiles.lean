import Mathlib.Tactic
import Strata.Backend.FileCrypto

/-! Sealed files: what is written is read back by both readers, and under an ideal cipher
nothing else is. The three loops of `file_crypto.rs` are each related to the blocks that a
reader with one block of look-ahead sees. -/

namespace Strata.Backend.FileCrypto

open Utf8 (Text Bytes)
open Blocks (blocks lookAhead)
open Framing (putBigEndian getBigEndian)
open StreamAead (Aead Stream encryptNext encryptLast decryptNext decryptLast frames opened sealings
  counterMax)

variable {aead : Aead} {aad : Bytes} {max frame : Nat}

/-! ### The loops end -/

theorem sealTurn_decreasing :
    Loop.Decreasing (fun s => s.ahead.length + s.rest.length) (sealTurn aead aad max) := by
  intro s next turned
  simp only [sealTurn] at turned
  split_ifs at turned with large done
  split at turned
  · cases turned
  · cases turned
    exact Blocks.lookAhead_shorter (by decide) done

theorem verifyTurn_decreasing (positive : 0 < frame) :
    Loop.Decreasing (fun s => s.ahead.length + s.rest.length) (verifyTurn aead aad frame) := by
  intro s next turned
  simp only [verifyTurn] at turned
  split_ifs at turned with done
  · split at turned <;> cases turned
  · split at turned
    · cases turned
    · cases turned
      exact Blocks.lookAhead_shorter positive done

theorem streamTurn_decreasing (positive : 0 < frame) :
    Loop.Decreasing (fun s => s.2.left) (streamTurn aead aad frame) := by
  intro s next turned
  simp only [streamTurn, streamNext] at turned
  cases streaming : s.2.dec with
  | none =>
      rw [streaming] at turned
      cases turned
  | some dec =>
      rw [streaming] at turned
      dsimp only at turned
      split_ifs at turned with done
      · cases read : decryptLast aead aad dec s.2.ahead with
        | none =>
            rw [read] at turned
            cases turned
        | some plain =>
            rw [read] at turned
            cases turned
            simp [StreamState.left, streaming]
      · cases read : decryptNext aead aad dec s.2.ahead with
        | none =>
            rw [read] at turned
            cases turned
        | some pair =>
            have shorter := Blocks.lookAhead_shorter positive done
            rw [read] at turned
            cases turned
            simp only [StreamState.left, streaming]
            omega

/-! ### The loops along the blocks -/

theorem verify_blocks (positive : 0 < frame) (items : Bytes) (dec : Stream) (size : Nat) :
    Loop.run (fun s => s.ahead.length + s.rest.length) (verifyTurn aead aad frame)
        { rest := items.drop frame, ahead := items.take frame, size, dec } =
      if (opened aead aad dec (blocks frame items)).2 then
        .ok (size + (opened aead aad dec (blocks frame items)).1.flatten.length)
      else
        .error tampered := by
  revert dec size
  apply Blocks.blocks_induction positive fun items list => ∀ (dec : Stream) (size : Nat),
    Loop.run (fun s => s.ahead.length + s.rest.length) (verifyTurn aead aad frame)
        { rest := items.drop frame, ahead := items.take frame, size, dec } =
      if (opened aead aad dec list).2 then .ok (size + (opened aead aad dec list).1.flatten.length)
      else .error tampered
  case last =>
    intro items done dec size
    have whole : items.take frame = items := List.take_of_length_le (List.drop_eq_nil_iff.mp done)
    rw [Loop.run_eq (verifyTurn_decreasing positive), verifyTurn]
    simp only [Blocks.lookAhead_blocks]
    simp only [done, List.take_nil, if_true, whole, opened]
    rcases (decryptLast aead aad dec items).eq_none_or_eq_some with read | ⟨plain, read⟩
    · simp only [read, Bool.false_eq_true, if_false]
    · simp only [read, if_true, List.flatten_singleton]
  case next =>
    intro items more ih dec size
    have ahead : (items.drop frame).take frame ≠ [] :=
      (Blocks.take_eq_nil_iff positive).not.mpr more
    rw [Loop.run_eq (verifyTurn_decreasing positive), verifyTurn,
      StreamAead.opened_cons _ (Blocks.blocks_ne_nil _ _)]
    simp only [Blocks.lookAhead_blocks, if_neg ahead]
    cases decryptNext aead aad dec (items.take frame) with
    | none => simp only [Bool.false_eq_true, if_false]
    | some pair => simp only [ih, List.flatten_cons, List.length_append, Nat.add_assoc]

theorem stream_blocks (positive : 0 < frame) (items : Bytes) (dec : Stream) (done : List Bytes) :
    Loop.run (fun s => s.2.left) (streamTurn aead aad frame)
        (done, { rest := items.drop frame, ahead := items.take frame, dec := some dec }) =
      ⟨done ++ (opened aead aad dec (blocks frame items)).1,
        if (opened aead aad dec (blocks frame items)).2 then none else some tampered⟩ := by
  revert dec done
  apply Blocks.blocks_induction positive fun items list => ∀ (dec : Stream) (done : List Bytes),
    Loop.run (fun s => s.2.left) (streamTurn aead aad frame)
        (done, { rest := items.drop frame, ahead := items.take frame, dec := some dec }) =
      ⟨done ++ (opened aead aad dec list).1,
        if (opened aead aad dec list).2 then none else some tampered⟩
  case last =>
    intro items ended dec done
    have whole : items.take frame = items := List.take_of_length_le (List.drop_eq_nil_iff.mp ended)
    rw [Loop.run_eq (streamTurn_decreasing positive), streamTurn, streamNext]
    simp only [Blocks.lookAhead_blocks]
    simp only [ended, List.take_nil, if_true, whole, opened]
    rcases (decryptLast aead aad dec items).eq_none_or_eq_some with read | ⟨plain, read⟩
    · simp only [read, List.append_nil, Bool.false_eq_true, if_false]
    · -- the next poll finds no decryptor and ends the stream
      simp only [read, if_true]
      rw [Loop.run_eq (streamTurn_decreasing positive), streamTurn, streamNext]
  case next =>
    intro items more ih dec done
    have ahead : (items.drop frame).take frame ≠ [] :=
      (Blocks.take_eq_nil_iff positive).not.mpr more
    rw [Loop.run_eq (streamTurn_decreasing positive), streamTurn, streamNext,
      StreamAead.opened_cons _ (Blocks.blocks_ne_nil _ _)]
    simp only [Blocks.lookAhead_blocks, if_neg ahead]
    cases decryptNext aead aad dec (items.take frame) with
    | none => simp only [List.append_nil, Bool.false_eq_true, if_false]
    | some pair => simp only [ih, List.append_assoc, List.singleton_append]

def Fits (max : Nat) (s : Sealing) (items : Bytes) (list : List Bytes) : Prop :=
  s.size + items.length ≤ max ∧ s.enc.position + list.length ≤ counterMax + 1

/-- What the loop leaves of a plaintext: its frames if it fits, an error if not. -/
def Written (aead : Aead) (aad : Bytes) (max : Nat) (s : Sealing) (items : Bytes)
    (list : List Bytes) : Except IoError Sealing → Prop
  | .ok done => Fits max s items list ∧ done.size = s.size + items.length ∧
      done.hashed = s.hashed ++ items ∧
      done.out = s.out ++ (frames aead aad s.enc list).flatten
  | .error _ => ¬Fits max s items list

theorem Written.cons {s : Sealing} {plain rest : Bytes} {list : List Bytes}
    {result : Except IoError Sealing} (more : list ≠ [])
    (written : Written aead aad max
      { s with
        size := s.size + plain.length
        hashed := s.hashed ++ plain
        enc := s.enc.next
        out := s.out ++ aead.encrypt s.enc.key
          (StreamAead.nonce s.enc.start s.enc.position false) aad plain } rest list result) :
    Written aead aad max s (plain ++ rest) (plain :: list) result := by
  have fits : Fits max { s with size := s.size + plain.length, enc := s.enc.next } rest list ↔
      Fits max s (plain ++ rest) (plain :: list) := by
    simp only [Fits, Stream.next, List.length_append, List.length_cons]
    omega
  cases result with
  | error failure => exact fun fit => written (fits.mpr fit)
  | ok done =>
      have ⟨fit, size, hashed, out⟩ := written
      refine ⟨fits.mp fit, ?_, ?_, ?_⟩
      · rw [size, List.length_append, Nat.add_assoc]
      · rw [hashed, List.append_assoc]
      · rw [out, StreamAead.frames_cons plain more, List.flatten_cons, List.append_assoc]

theorem seal_blocks (items : Bytes) (s : Sealing) (inside : s.enc.position ≤ counterMax) :
    Written aead aad max s items (blocks chunk items)
      (Loop.run (fun s => s.ahead.length + s.rest.length) (sealTurn aead aad max)
        { s with rest := items.drop chunk, ahead := items.take chunk }) := by
  have positive : 0 < chunk := by decide
  revert s
  apply Blocks.blocks_induction positive fun items list => ∀ s : Sealing,
    s.enc.position ≤ counterMax → Written aead aad max s items list
      (Loop.run (fun s => s.ahead.length + s.rest.length) (sealTurn aead aad max)
        { s with rest := items.drop chunk, ahead := items.take chunk })
  case last =>
    intro items done s inside
    have whole : items.take chunk = items := List.take_of_length_le (List.drop_eq_nil_iff.mp done)
    rw [Loop.run_eq sealTurn_decreasing, sealTurn]
    simp only [Blocks.lookAhead_blocks]
    simp only [done, List.take_nil, if_true, whole]
    split_ifs with large
    · exact fun fits => absurd fits.1 (not_le.mpr large)
    · refine ⟨⟨not_lt.mp large, Nat.succ_le_succ inside⟩, rfl, rfl, ?_⟩
      rw [frames, List.flatten_singleton]
  case next =>
    intro items more ih s inside
    have ahead : (items.drop chunk).take chunk ≠ [] :=
      (Blocks.take_eq_nil_iff positive).not.mpr more
    have full : (items.take chunk).length = chunk := by
      rw [ne_eq, List.drop_eq_nil_iff] at more
      exact List.length_take_of_le (by omega)
    have total : items.length = (items.take chunk).length + (items.drop chunk).length := by
      rw [← List.length_append, List.take_append_drop]
    have count := List.length_pos_iff.mpr (Blocks.blocks_ne_nil chunk (items.drop chunk))
    rw [Loop.run_eq sealTurn_decreasing, sealTurn]
    simp only [Blocks.lookAhead_blocks, if_neg ahead]
    split_ifs with large
    · exact fun fits => absurd fits.1 (by omega)
    · rw [encryptNext]
      split_ifs with last
      · exact fun fits => absurd fits.2 (by rw [List.length_cons]; omega)
      · nth_rewrite 1 [← List.take_append_drop chunk items]
        apply Written.cons (Blocks.blocks_ne_nil _ _)
        apply ih
        dsimp only [Stream.next]
        omega

/-! ### Headers -/

variable {key fileId start : Bytes}

theorem headerOf_length (seven : start.length = prefixLen) :
    (headerOf start).length = headerLen := by
  rw [headerOf, List.length_append, List.length_append, Framing.putBigEndian_length, seven]
  rfl

theorem readHeader_append {header : Bytes} (body : Bytes) (whole : header.length = headerLen) :
    readHeader (header ++ body) = .ok (header, body) := by
  have long : ¬(header ++ body).length < headerLen := by
    rw [List.length_append]
    omega
  rw [readHeader, if_neg long, ← whole, List.take_left, List.drop_left]

theorem readHeader_eq_ok {file header body : Bytes} (read : readHeader file = .ok (header, body)) :
    header.length = headerLen ∧ file = header ++ body := by
  rw [readHeader] at read
  split_ifs at read with short
  cases read
  exact ⟨List.length_take_of_le (not_lt.mp short), (List.take_append_drop ..).symm⟩

theorem openHeader_headerOf (long : key.length = 32) :
    openHeader (headerOf start) key fileId =
      .ok ⟨⟨key, start, 0⟩, associatedData (headerOf start) fileId, chunk + tag⟩ := by
  have front : (headerOf start).take magic.length = magic := by
    rw [headerOf, List.append_assoc, List.take_left]
  have middle : ((headerOf start).drop magic.length).take 4 = putBigEndian 4 chunk := by
    rw [headerOf, List.append_assoc, List.drop_left]
    exact List.take_left' (Framing.putBigEndian_length ..)
  have back : (headerOf start).drop (magic.length + 4) = start := by
    exact List.drop_left' (by rw [List.length_append, Framing.putBigEndian_length])
  have size : getBigEndian (putBigEndian 4 chunk) = chunk := by decide
  have inside : ¬(chunk = 0 ∨ chunk > maxChunk) := by decide
  simp only [openHeader, front, middle, back, size, inside, checkKey, long]
  rfl

theorem openHeader_eq_ok {header : Bytes} {opening : Opened}
    (read : openHeader header key fileId = .ok opening) :
    opening.dec.key = key ∧ opening.aad = associatedData header fileId ∧ 0 < opening.frame := by
  rw [openHeader] at read
  by_cases known : header.take magic.length ≠ magic
  · rw [if_pos known] at read
    cases read
  rw [if_neg known] at read
  by_cases bad : getBigEndian ((header.drop magic.length).take 4) = 0 ∨
      getBigEndian ((header.drop magic.length).take 4) > maxChunk
  · simp only [if_pos bad] at read
    cases read
  by_cases long : key.length = 32
  · simp only [if_neg bad, checkKey, if_pos long] at read
    cases read
    exact ⟨rfl, rfl, Nat.lt_add_left _ (by decide : 0 < tag)⟩
  · simp only [if_neg bad, checkKey, if_neg long] at read
    cases read

/-! ### What a reader finds -/

def contents (aead : Aead) (file key fileId : Bytes) : Except IoError (List Bytes × Bool) := do
  let (header, body) ← readHeader file
  let opening ← openHeader header key fileId
  return opened aead opening.aad opening.dec (blocks opening.frame body)

theorem verifyFile_eq (file : Bytes) (expectedSize : Nat) :
    verifyFile aead file key fileId expectedSize = (do
      let (plains, whole) ← contents aead file key fileId
      if whole then
        if plains.flatten.length ≠ expectedSize then
          throw (.invalid "encrypted file has the wrong length".toList)
      else
        throw tampered) := by
  simp only [verifyFile, contents]
  cases readHeader file with
  | error failure => rfl
  | ok parts =>
      simp only [bind, Except.bind]
      cases opens : openHeader parts.1 key fileId with
      | error failure => rfl
      | ok opening =>
          simp only [verify_blocks (openHeader_eq_ok opens).2.2, Nat.zero_add]
          generalize opened aead opening.aad opening.dec (blocks opening.frame parts.2) = found
          rcases found with ⟨plains, _ | _⟩ <;> rfl

theorem decryptStream_eq (file : Bytes) :
    decryptStream aead file key fileId = (do
      let (plains, whole) ← contents aead file key fileId
      return ⟨plains, if whole then none else some tampered⟩) := by
  simp only [decryptStream, contents]
  cases readHeader file with
  | error failure => rfl
  | ok parts =>
      simp only [bind, Except.bind]
      cases opens : openHeader parts.1 key fileId with
      | error failure => rfl
      | ok opening =>
          simp only [stream_blocks (openHeader_eq_ok opens).2.2, List.nil_append]
          rfl

/-- Whatever the file and the cipher, checking a file before it is sent has the outcome that
sending it has: its failure, or the length of all it yields against the expected size. -/
theorem verifyFile_eq_streamed (aead : Aead) (file key fileId : Bytes) (size : Nat) :
    verifyFile aead file key fileId size =
      (decryptStream aead file key fileId).bind fun sent => sent.failure.elim
        (if sent.chunks.flatten.length = size then .ok ()
          else .error (.invalid "encrypted file has the wrong length".toList)) .error := by
  rw [verifyFile_eq, decryptStream_eq]
  rcases contents aead file key fileId with failure | ⟨plains, whole⟩
  · rfl
  cases whole with
  | false => rfl
  | true =>
      simp only [bind, Except.bind, if_true, pure, Except.pure, Option.elim_none]
      by_cases same : plains.flatten.length = size
      · rw [if_pos same, if_neg (not_not.mpr same)]
      · rw [if_neg same, if_pos same]
        rfl

/-! ### What is written -/

def sealedFile (aead : Aead) (plaintext key fileId start : Bytes) : Bytes :=
  headerOf start ++ (frames aead (associatedData (headerOf start) fileId) ⟨key, start, 0⟩
    (blocks chunk plaintext)).flatten

def longest : Nat := (counterMax + 1) * chunk

variable {sha256 : Bytes → Bytes} {plaintext : Bytes}

theorem writeSealed_eq_ok_iff {file : Bytes} {result : Sealed} (long : key.length = 32) :
    writeSealed aead sha256 plaintext key fileId max start = .ok (file, result) ↔
      (plaintext.length ≤ max ∧ plaintext.length ≤ longest) ∧
        file = sealedFile aead plaintext key fileId start ∧
        result = ⟨plaintext.length, Hex.encode (sha256 plaintext)⟩ := by
  have fits : Fits max ⟨[], [], 0, [], ⟨key, start, 0⟩, headerOf start⟩ plaintext
      (blocks chunk plaintext) ↔ plaintext.length ≤ max ∧ plaintext.length ≤ longest := by
    rw [Fits, Nat.zero_add, Nat.zero_add, longest,
      Blocks.blocks_length_le_iff (by decide) _ (Nat.succ_pos counterMax)]
  have written : Written aead (associatedData (headerOf start) fileId) max
      ⟨[], [], 0, [], ⟨key, start, 0⟩, headerOf start⟩ plaintext (blocks chunk plaintext) _ :=
    seal_blocks plaintext _ (Nat.zero_le counterMax)
  rw [← fits]
  simp only [writeSealed, checkKey, if_pos long, bind, Except.bind]
  revert written
  generalize Loop.run (fun s : Sealing => s.ahead.length + s.rest.length)
    (sealTurn aead (associatedData (headerOf start) fileId) max) _ = outcome
  intro written
  cases outcome with
  | error failure => exact ⟨nofun, fun ⟨fit, _⟩ => absurd fit written⟩
  | ok done =>
      have ⟨fit, size, hashed, out⟩ := written
      rw [Nat.zero_add] at size
      rw [List.nil_append] at hashed
      simp only [pure, Except.pure, Except.ok.injEq, Prod.mk.injEq, size, hashed, out, fit,
        true_and, sealedFile, eq_comm]

theorem key_of_writeSealed {written : Bytes × Sealed}
    (produced : writeSealed aead sha256 plaintext key fileId max start = .ok written) :
    key.length = 32 := by
  by_contra short
  simp only [writeSealed, checkKey, if_neg short] at produced
  cases produced

/-! ### What is read -/

theorem contents_headerOf (body : Bytes) (long : key.length = 32)
    (seven : start.length = prefixLen) :
    contents aead (headerOf start ++ body) key fileId =
      .ok (opened aead (associatedData (headerOf start) fileId) ⟨key, start, 0⟩
        (blocks (chunk + tag) body)) := by
  simp only [contents, readHeader_append body (headerOf_length seven), openHeader_headerOf long,
    bind, Except.bind, pure, Except.pure]

theorem contents_sealedFile (long : key.length = 32) (seven : start.length = prefixLen)
    (counted : plaintext.length ≤ longest)
    (longer : ∀ nonce aad plain,
      (aead.encrypt key nonce aad plain).length = plain.length + StreamAead.tagLen)
    (opens : ∀ use ∈ sealings (associatedData (headerOf start) fileId) start 0
        (blocks chunk plaintext),
      aead.decrypt key use.nonce use.aad (aead.encrypt key use.nonce use.aad use.plain) =
        some use.plain) :
    contents aead (sealedFile aead plaintext key fileId start) key fileId =
      .ok (blocks chunk plaintext, true) := by
  have positive : 0 < chunk := by decide
  have few : (blocks chunk plaintext).length ≤ counterMax + 1 :=
    (Blocks.blocks_length_le_iff positive _ (Nat.succ_pos counterMax)).mpr counted
  have shape : Blocks.Blocked (chunk + StreamAead.tagLen) (frames aead
      (associatedData (headerOf start) fileId) ⟨key, start, 0⟩ (blocks chunk plaintext)) :=
    StreamAead.frames_blocked (fun nonce plain => longer nonce _ plain)
      (Blocks.blocked_blocks positive plaintext)
  rw [sealedFile, contents_headerOf _ long seven, tag,
    Blocks.blocks_of_blocked (Nat.lt_add_right _ positive) shape,
    StreamAead.opened_frames (Blocks.blocks_ne_nil _ _) (by rwa [Nat.zero_add]) opens]

theorem verifyFile_eq_ok_iff {file : Bytes} {size : Nat} :
    verifyFile aead file key fileId size = .ok () ↔
      ∃ plains, contents aead file key fileId = .ok (plains, true) ∧
        plains.flatten.length = size := by
  rw [verifyFile_eq]
  rcases contents aead file key fileId with failure | ⟨plains, whole⟩
  · exact ⟨nofun, fun ⟨_, found, _⟩ => nomatch found⟩
  cases whole with
  | false => exact ⟨nofun, fun ⟨_, found, _⟩ => nomatch found⟩
  | true =>
      simp only [bind, Except.bind, if_true]
      by_cases same : plains.flatten.length = size
      · rw [if_neg (not_not.mpr same)]
        exact iff_of_true rfl ⟨plains, rfl, same⟩
      · rw [if_pos same]
        refine iff_of_false nofun ?_
        rintro ⟨_, found, right⟩
        cases found
        exact same right

theorem decryptStream_eq_ok_iff {file : Bytes} {chunks : List Bytes} {failure : Option IoError} :
    decryptStream aead file key fileId = .ok ⟨chunks, failure⟩ ↔
      ∃ whole, contents aead file key fileId = .ok (chunks, whole) ∧
        (if whole = true then none else some tampered) = failure := by
  rw [decryptStream_eq]
  rcases contents aead file key fileId with failure | ⟨plains, whole⟩
  · exact ⟨nofun, fun ⟨_, found, _⟩ => nomatch found⟩
  · simp only [bind, Except.bind, pure, Except.pure, Except.ok.injEq, Streamed.mk.injEq,
      Prod.mk.injEq]
    constructor
    · rintro ⟨rfl, rfl⟩
      exact ⟨whole, ⟨rfl, rfl⟩, rfl⟩
    · rintro ⟨_, ⟨rfl, rfl⟩, rfl⟩
      exact ⟨rfl, rfl⟩

theorem contents_eq_ok {file : Bytes} {found : List Bytes × Bool}
    (read : contents aead file key fileId = .ok found) :
    ∃ header body opening, header.length = headerLen ∧ file = header ++ body ∧
      openHeader header key fileId = .ok opening ∧
      found = opened aead opening.aad opening.dec (blocks opening.frame body) := by
  rw [contents] at read
  cases parsed : readHeader file with
  | error failure =>
      rw [parsed] at read
      cases read
  | ok parts =>
      rw [parsed] at read
      cases opens : openHeader parts.1 key fileId with
      | error failure =>
          simp only [bind, Except.bind, opens] at read
          cases read
      | ok opening =>
          simp only [bind, Except.bind, opens] at read
          have ⟨whole, split⟩ := readHeader_eq_ok parsed
          exact ⟨parts.1, parts.2, opening, whole, split, opens, (Except.ok.inj read).symm⟩

section Ideal

variable (long : key.length = 32) (seven : start.length = prefixLen)
  (counted : plaintext.length ≤ longest)
  (ideal : aead.Ideal key (sealings (associatedData (headerOf start) fileId) start 0
    (blocks chunk plaintext)))

include ideal in
theorem contents_other_header {header body : Bytes} {found : List Bytes × Bool}
    (whole : header.length = headerLen) (other : header ≠ headerOf start)
    (read : contents aead (header ++ body) key fileId = .ok found) : found = ([], false) := by
  obtain ⟨front, rest, opening, length, split, opens, rfl⟩ := contents_eq_ok read
  obtain ⟨rfl, rfl⟩ := List.append_inj split (whole.trans length.symm)
  have ⟨sameKey, sameAad, _⟩ := openHeader_eq_ok opens
  apply StreamAead.opened_foreign
  intro nonce frame
  rw [Option.eq_none_iff_forall_ne_some]
  intro plain decrypted
  rw [sameKey, sameAad] at decrypted
  have member := ((ideal.decrypt_iff ..).mp decrypted).1
  exact other (List.append_cancel_right (StreamAead.aad_of_mem_sealings member))

include long seven counted ideal in
theorem contents_ideal {presented : Bytes} {plains : List Bytes} {whole : Bool}
    (read : contents aead presented key fileId = .ok (plains, whole)) :
    plains.flatten <+: plaintext ∧
      (whole = true → presented = sealedFile aead plaintext key fileId start) := by
  have positive : 0 < chunk := by decide
  have few : (blocks chunk plaintext).length ≤ counterMax + 1 :=
    (Blocks.blocks_length_le_iff positive _ (Nat.succ_pos counterMax)).mpr counted
  obtain ⟨header, body, opening, length, rfl, -, -⟩ := contents_eq_ok read
  by_cases same : header = headerOf start
  · rw [same, contents_headerOf body long seven, Except.ok.injEq] at read
    have ⟨front, complete⟩ := StreamAead.opened_ideal ideal few (List.nil_append _).symm
      (Blocks.blocks_ne_nil _ _) (blocks (chunk + tag) body)
    rw [List.length_nil, read] at front complete
    constructor
    · obtain ⟨rest, whole⟩ := front
      have parts := congrArg List.flatten whole
      rw [List.flatten_append, Blocks.blocks_flatten positive] at parts
      exact ⟨rest.flatten, parts⟩
    · intro ended
      have frames := congrArg List.flatten (complete ended)
      rw [Blocks.blocks_flatten (Nat.lt_add_right _ positive)] at frames
      rw [same, sealedFile, frames]
  · cases contents_other_header ideal length same read
    exact ⟨List.nil_prefix, nofun⟩

end Ideal

/-! ### Sealed files are read back -/

/-- A plaintext within the limits is sealed, and what was sealed is verified at its own length
only and decrypted to what it was. -/
theorem sealed_file_reads_back (correct : aead.Correct) (max : Nat) (plaintext : Bytes)
    (long : key.length = 32) (seven : start.length = prefixLen) :
    ((∃ file result, writeSealed aead sha256 plaintext key fileId max start = .ok (file, result)) ↔
      plaintext.length ≤ max ∧ plaintext.length ≤ 2 ^ 32 * chunk) ∧
    ∀ file result, writeSealed aead sha256 plaintext key fileId max start = .ok (file, result) →
      result.size = plaintext.length ∧
      (∀ size, verifyFile aead file key fileId size = .ok () ↔ size = plaintext.length) ∧
      ∃ chunks, decryptStream aead file key fileId = .ok ⟨chunks, none⟩ ∧
        chunks.flatten = plaintext := by
  constructor
  · constructor
    · rintro ⟨file, result, produced⟩
      exact ((writeSealed_eq_ok_iff long).mp produced).1
    · intro fits
      exact ⟨_, _, (writeSealed_eq_ok_iff long).mpr ⟨fits, rfl, rfl⟩⟩
  · intro file result produced
    obtain ⟨⟨_, counted⟩, rfl, rfl⟩ := (writeSealed_eq_ok_iff long).mp produced
    have found : contents aead (sealedFile aead plaintext key fileId start) key fileId =
        .ok (blocks chunk plaintext, true) :=
      contents_sealedFile long seven counted (fun _ _ _ => correct.encrypt_length ..)
        fun _ _ => correct.decrypt_encrypt ..
    have whole : (blocks chunk plaintext).flatten = plaintext :=
      Blocks.blocks_flatten (by decide) plaintext
    refine ⟨rfl, fun size => ?_, blocks chunk plaintext, ?_, whole⟩
    · rw [verifyFile_eq_ok_iff, found]
      constructor
      · rintro ⟨_, same, rfl⟩
        cases same
        rw [whole]
      · rintro rfl
        exact ⟨_, rfl, by rw [whole]⟩
    · exact decryptStream_eq_ok_iff.mpr ⟨true, found, rfl⟩

def sampleKey : Bytes := List.replicate 32 7
def sampleStart : Bytes := [1, 2, 3, 4, 5, 6, 7]
def sampleId : Bytes := List.replicate 16 0
def hello : Bytes := [104, 101, 108, 108, 111]

def helloFrame : Bytes :=
  [111, 222, 252, 83, 200, 169, 97, 223, 102, 3, 28, 223, 50, 25, 153, 42, 72, 26, 148, 163, 173]

def IsHello (key nonce aad : Bytes) : Prop :=
  key = sampleKey ∧ nonce = StreamAead.nonce sampleStart 0 true ∧
    aad = associatedData (headerOf sampleStart) sampleId

instance (key nonce aad : Bytes) : Decidable (IsHello key nonce aad) :=
  inferInstanceAs (Decidable (_ ∧ _))

/-- AES-256-GCM on the sample, and a tag of zeros elsewhere. -/
def sampleEncrypt (key nonce aad plain : Bytes) : Bytes :=
  if IsHello key nonce aad ∧ plain = hello then helloFrame
  else plain ++ List.replicate StreamAead.tagLen 0

theorem sampleEncrypt_length (key nonce aad plain : Bytes) :
    (sampleEncrypt key nonce aad plain).length = plain.length + StreamAead.tagLen := by
  rw [sampleEncrypt]
  split_ifs with sample
  · rw [sample.2]
    rfl
  · rw [List.length_append, List.length_replicate]

def sampleCipher : Aead where
  encrypt := sampleEncrypt
  decrypt key nonce aad frame :=
    if IsHello key nonce aad ∧ frame = helloFrame then some hello
    else
      let size := frame.length - StreamAead.tagLen
      if frame.drop size = List.replicate StreamAead.tagLen 0 then some (frame.take size) else none

theorem sampleCipher_correct : sampleCipher.Correct where
  encrypt_length := sampleEncrypt_length
  decrypt_encrypt := by
    intro key nonce aad plain
    rw [sampleCipher]
    dsimp only
    rw [sampleEncrypt]
    by_cases sample : IsHello key nonce aad ∧ plain = hello
    · rw [if_pos sample, if_pos ⟨sample.1, rfl⟩, sample.2]
    · have other : plain ++ List.replicate StreamAead.tagLen 0 ≠ helloFrame := by
        intro same
        have tags := congrArg (fun frame => frame.getLast?) same
        simp [StreamAead.tagLen, List.replicate_succ', helloFrame] at tags
      have size : (plain ++ List.replicate StreamAead.tagLen (0 : UInt8)).length -
          StreamAead.tagLen = plain.length := by
        rw [List.length_append, List.length_replicate, Nat.add_sub_cancel]
      rw [if_neg sample, if_neg (fun both => other both.2)]
      simp only [size, List.drop_left, List.take_left, if_true]

theorem hello_reads_back :
    (∃ file result, writeSealed sampleCipher id hello sampleKey sampleId 100 sampleStart =
      .ok (file, result)) ∧
    ∀ file result, writeSealed sampleCipher id hello sampleKey sampleId 100 sampleStart =
        .ok (file, result) →
      verifyFile sampleCipher file sampleKey sampleId 5 = .ok () := by
  have ⟨written, read⟩ := @sealed_file_reads_back sampleCipher sampleKey sampleId sampleStart id
    sampleCipher_correct 100 hello rfl rfl
  constructor
  · exact written.mpr (by decide)
  · intro file result produced
    exact ((read file result produced).2.1 5).mpr rfl

/-! ### Only sealed files are read -/

/-- Under a cipher that opens under this key only the frames of this file, as they were sealed:
no other file is verified or decrypted to its end, and none yields anything but a front part of
the plaintext. -/
theorem only_the_sealed_file_opens {file : Bytes} {result : Sealed}
    (seven : start.length = prefixLen)
    (produced : writeSealed aead sha256 plaintext key fileId max start = .ok (file, result))
    (ideal : aead.Ideal key (sealings (associatedData (headerOf start) fileId) start 0
      (blocks chunk plaintext)))
    (presented : Bytes) :
    (verifyFile aead presented key fileId plaintext.length = .ok () ↔ presented = file) ∧
    ((∃ chunks, decryptStream aead presented key fileId = .ok ⟨chunks, none⟩) ↔
      presented = file) ∧
    ∀ chunks failure, decryptStream aead presented key fileId = .ok ⟨chunks, failure⟩ →
      chunks.flatten <+: plaintext := by
  have long := key_of_writeSealed produced
  obtain ⟨⟨_, counted⟩, rfl, -⟩ := (writeSealed_eq_ok_iff long).mp produced
  have found : contents aead (sealedFile aead plaintext key fileId start) key fileId =
      .ok (blocks chunk plaintext, true) := by
    apply contents_sealedFile long seven counted ideal.encrypt_length
    intro use member
    exact (ideal.decrypt_iff ..).mpr ⟨member, rfl⟩
  refine ⟨?_, ?_, ?_⟩
  · rw [verifyFile_eq_ok_iff]
    constructor
    · rintro ⟨plains, read, _⟩
      exact (contents_ideal long seven counted ideal read).2 rfl
    · rintro rfl
      exact ⟨_, found, by rw [Blocks.blocks_flatten (by decide)]⟩
  · simp only [decryptStream_eq_ok_iff]
    constructor
    · rintro ⟨chunks, whole, read, ended⟩
      cases whole with
      | false => cases ended
      | true => exact (contents_ideal long seven counted ideal read).2 rfl
    · rintro rfl
      exact ⟨_, true, found, rfl⟩
  · intro chunks failure streamed
    obtain ⟨whole, read, -⟩ := decryptStream_eq_ok_iff.mp streamed
    exact (contents_ideal long seven counted ideal read).1

def idealCipher : Aead where
  encrypt := sampleEncrypt
  decrypt key nonce aad frame :=
    if IsHello key nonce aad ∧ frame = helloFrame then some hello else none

theorem idealCipher_ideal :
    idealCipher.Ideal sampleKey (sealings (associatedData (headerOf sampleStart) sampleId)
      sampleStart 0 (blocks chunk hello)) where
  encrypt_length := fun _ _ _ => sampleEncrypt_length ..
  decrypt_iff := by
    intro nonce aad frame plain
    have one : blocks chunk hello = [hello] := by
      rw [Blocks.blocks_eq (by decide), if_pos (List.drop_eq_nil_iff.mpr (by decide))]
    rw [one, sealings, List.mem_singleton, StreamAead.Sealing.mk.injEq]
    simp only [idealCipher, sampleEncrypt]
    by_cases sample : IsHello sampleKey nonce aad
    · obtain ⟨-, rfl, rfl⟩ := sample
      by_cases same : plain = hello
      · simp [same, IsHello]
      · simp [same, IsHello, Ne.symm same]
    · have other : ¬(nonce = StreamAead.nonce sampleStart 0 true ∧
          aad = associatedData (headerOf sampleStart) sampleId ∧ plain = hello) := by
        rintro ⟨nonces, aads, -⟩
        exact sample ⟨rfl, nonces, aads⟩
      simp [sample, other]

theorem only_the_hello_file_opens :
    ∃ file result,
      writeSealed idealCipher id hello sampleKey sampleId 100 sampleStart = .ok (file, result) ∧
      ∀ presented, verifyFile idealCipher presented sampleKey sampleId 5 = .ok () ↔
        presented = file := by
  have produced := (@writeSealed_eq_ok_iff idealCipher 100 sampleKey sampleId sampleStart id hello
    _ _ rfl).mpr ⟨by decide, rfl, rfl⟩
  exact ⟨_, _, produced, fun presented =>
    (only_the_sealed_file_opens rfl produced idealCipher_ideal presented).1⟩

end Strata.Backend.FileCrypto
