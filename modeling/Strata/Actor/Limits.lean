import Mathlib.Tactic
import Strata.Actor.Streams

/-! What every elementary change of the client streams keeps: the limits on open
streams and held bytes, and the balance of the process counter. -/

namespace Strata.Actor

open Utf8 (Text Bytes)
open Tables

structure Limits (streams : ClientStreams) : Prop where
  disjoint : ∀ stream ∈ streams.clipboardStreams, stream ∉ streams.uploadStreams
  operator : size streams.clipboardStreams ≤ maxClipboardStreams
  guest : size streams.guestClipboardStreams ≤ maxGuestClipboardStreams
  uploads : streams.uploadStreams.card ≤ maxUploadStreams
  pending : ∀ guest stream pending, (streams.table guest).lookup stream = some pending →
    pending.data.length ≤ maxClipboardBytes
  total : streams.buffered ≤ maxClipboardSessionBytes

variable {base64 : Base64.Codec} {streams next : ClientStreams} {change : Change}
  {changes : List Change} {ops : List CounterOp}

theorem limits_empty : Limits .empty where
  disjoint := by simp [ClientStreams.empty]
  operator := Nat.zero_le _
  guest := Nat.zero_le _
  uploads := Nat.zero_le _
  pending := by
    intro guest stream pending present
    cases guest <;> simp [ClientStreams.empty, ClientStreams.table] at present
  total := Nat.zero_le _

theorem Limits.size_le (limits : Limits streams) (guest : Bool) :
    size (streams.table guest) ≤ ClientStreams.limit guest := by
  cases guest
  · exact limits.operator
  · exact limits.guest

theorem Limits.withTable (limits : Limits streams) (guest : Bool)
    (table : Table Int PendingClipboard) (room : size table ≤ ClientStreams.limit guest)
    (apart : guest = false → ∀ stream ∈ table, stream ∉ streams.uploadStreams)
    (short : ∀ stream pending, table.lookup stream = some pending →
      pending.data.length ≤ maxClipboardBytes)
    (within : ClientStreams.bytesOf table + ClientStreams.bytesOf (streams.table (!guest)) ≤
      maxClipboardSessionBytes) :
    Limits (streams.withTable guest table) := by
  constructor
  case disjoint =>
    cases guest
    · exact apart rfl
    · exact limits.disjoint
  case operator =>
    cases guest
    · exact room
    · exact limits.operator
  case guest =>
    cases guest
    · exact limits.guest
    · exact room
  case uploads =>
    rw [ClientStreams.uploads_withTable]
    exact limits.uploads
  case pending =>
    intro side stream pending present
    by_cases same : side = guest
    · subst same
      rw [ClientStreams.table_withTable] at present
      exact short stream pending present
    · have other : side = !guest := Bool.eq_not_of_ne same
      subst other
      rw [ClientStreams.table_withTable_not] at present
      exact limits.pending _ stream pending present
  case total =>
    rw [ClientStreams.buffered_withTable]
    exact within

theorem Limits.apart (limits : Limits streams) {guest : Bool} (operator : guest = false)
    {stream : Int} (member : stream ∈ streams.table guest) : stream ∉ streams.uploadStreams := by
  subst operator
  exact limits.disjoint stream member

section Bytes

variable (table : Table Int PendingClipboard) {stream : Int} {pending : PendingClipboard}

theorem bytesOf_retain (live : PendingClipboard → Bool) :
    ClientStreams.bytesOf (retain live table) +
        ClientStreams.bytesOf (retain (fun pending => !live pending) table) =
      ClientStreams.bytesOf table :=
  total_retain (fun pending : PendingClipboard => pending.data.length) live table

theorem bytesOf_opened (absent : stream ∉ table) (touched : Nat) :
    ClientStreams.bytesOf (table.insert stream ⟨[], touched⟩) = ClientStreams.bytesOf table :=
  total_insert_of_notMem (fun pending : PendingClipboard => pending.data.length) table absent
    ⟨[], touched⟩

theorem bytesOf_appended (present : table.lookup stream = some pending) (decoded : Bytes)
    (touched : Nat) :
    ClientStreams.bytesOf (table.insert stream ⟨pending.data ++ decoded, touched⟩) =
      ClientStreams.bytesOf table + decoded.length := by
  have replaced := total_insert_of_lookup (fun pending : PendingClipboard => pending.data.length)
    table present ⟨pending.data ++ decoded, touched⟩
  dsimp only at replaced
  rw [List.length_append] at replaced
  unfold ClientStreams.bytesOf
  omega

theorem bytesOf_closed (present : table.lookup stream = some pending) :
    ClientStreams.bytesOf (table.erase stream) + pending.data.length =
      ClientStreams.bytesOf table :=
  total_erase_of_lookup (fun pending : PendingClipboard => pending.data.length) table present

theorem bytesOf_erase_le (stream : Int) :
    ClientStreams.bytesOf (table.erase stream) ≤ ClientStreams.bytesOf table := by
  have split := total_erase (fun pending : PendingClipboard => pending.data.length) table stream
  unfold ClientStreams.bytesOf
  omega

end Bytes

theorem Limits.erase (limits : Limits streams) (guest : Bool) (stream : Int) :
    Limits (streams.withTable guest ((streams.table guest).erase stream)) := by
  have whole := limits.total
  rw [ClientStreams.buffered_split streams guest] at whole
  have fewer := bytesOf_erase_le (streams.table guest) stream
  refine limits.withTable guest _ ((size_erase_le _ stream).trans (limits.size_le guest)) ?_ ?_
    (by omega)
  · intro operator other member
    exact limits.apart operator (AList.mem_erase.mp member).2
  · intro other pending present
    exact limits.pending guest other pending (Tables.of_lookup_erase _ present).2

theorem Limits.insert (limits : Limits streams) (guest : Bool) {stream : Int}
    {pending : PendingClipboard}
    (room : size ((streams.table guest).insert stream pending) ≤ ClientStreams.limit guest)
    (apart : guest = false → stream ∉ streams.uploadStreams)
    (short : pending.data.length ≤ maxClipboardBytes)
    (within : ClientStreams.bytesOf ((streams.table guest).insert stream pending) +
      ClientStreams.bytesOf (streams.table (!guest)) ≤ maxClipboardSessionBytes) :
    Limits (streams.withTable guest ((streams.table guest).insert stream pending)) := by
  refine limits.withTable guest _ room ?_ ?_ within
  · intro operator other member
    rcases (AList.mem_insert _).mp member with rfl | old
    · exact apart operator
    · exact limits.apart operator old
  · intro other held found
    rcases Tables.of_lookup_insert _ found with ⟨rfl, rfl⟩ | ⟨_, old⟩
    · exact short
    · exact limits.pending guest other held old

theorem StreamStep.limits (step : StreamStep base64 streams change ops next)
    (limits : Limits streams) : Limits next := by
  have whole := limits.total
  cases step with
  | evicted guest live =>
      rw [ClientStreams.buffered_split streams guest] at whole
      have fewer := bytesOf_retain (streams.table guest) live
      apply limits.withTable guest
      · exact (size_retain_le live _).trans (limits.size_le guest)
      · intro operator stream member
        exact limits.apart operator (mem_of_mem_retain live _ member)
      · intro stream pending present
        exact limits.pending guest stream pending (lookup_retain live _ present)
      · omega
  | opened guest stream touched absent room apart =>
      rw [ClientStreams.buffered_split streams guest] at whole
      apply limits.insert guest
      · exact (size_insert_le _ stream _).trans (Nat.succ_le_of_lt room)
      · exact apart
      · exact Nat.zero_le _
      · rw [bytesOf_opened _ absent]
        exact whole
  | refused guest stream pending present => exact limits.erase guest stream
  | appended guest stream pending blob decoded touched present read fits within =>
      rw [ClientStreams.buffered_split streams guest] at within
      have known : stream ∈ streams.table guest := by
        rw [← AList.lookup_isSome, present]
        rfl
      apply limits.insert guest
      · rw [size_insert_of_mem _ known]
        exact limits.size_le guest
      · intro operator
        exact limits.apart operator known
      · rw [List.length_append]
        exact fits
      · rw [bytesOf_appended _ present]
        omega
  | finished guest stream pending present => exact limits.erase guest stream
  | uploadOpened stream apart fresh room =>
      refine ⟨?_, limits.operator, limits.guest, ?_, limits.pending, limits.total⟩
      · intro other member inside
        rcases Finset.mem_insert.mp inside with rfl | old
        · exact apart member
        · exact limits.disjoint other member old
      · exact (Finset.card_insert_le stream streams.uploadStreams).trans (Nat.succ_le_of_lt room)
  | uploadClosed stream =>
      refine ⟨?_, limits.operator, limits.guest, ?_, limits.pending, limits.total⟩
      · intro other member inside
        exact limits.disjoint other member (Finset.mem_of_mem_erase inside)
      · exact (Finset.card_le_card (Finset.erase_subset stream _)).trans limits.uploads

theorem StreamChain.limits (chain : StreamChain base64 streams changes ops next)
    (limits : Limits streams) : Limits next := by
  induction chain with
  | nil streams => exact limits
  | cons step rest ih => exact ih (step.limits limits)

def added (ops : List CounterOp) : Nat :=
  (ops.map fun op => match op with | .add bytes => bytes | .sub _ => 0).sum

def subbed (ops : List CounterOp) : Nat :=
  (ops.map fun op => match op with | .add _ => 0 | .sub bytes => bytes).sum

/-- Bytes that leave the pending clipboards without leaving the counter. -/
def unreleased : Change → Nat
  | .finished _ _ data => data.length
  | _ => 0

theorem added_append (first second : List CounterOp) :
    added (first ++ second) = added first + added second := by
  simp [added]

theorem subbed_append (first second : List CounterOp) :
    subbed (first ++ second) = subbed first + subbed second := by
  simp [subbed]

theorem added_dropAll (table : Table Int PendingClipboard) :
    added (ClientStreams.dropAll table) = 0 := by
  simp [added, ClientStreams.dropAll, PendingClipboard.drop, Function.comp_def]

theorem subbed_dropAll (table : Table Int PendingClipboard) :
    subbed (ClientStreams.dropAll table) = ClientStreams.bytesOf table := by
  simp [subbed, ClientStreams.dropAll, PendingClipboard.drop, Function.comp_def,
    ClientStreams.bytesOf, total]

theorem StreamStep.balance (step : StreamStep base64 streams change ops next) :
    next.buffered + subbed ops + unreleased change = streams.buffered + added ops := by
  cases step with
  | evicted guest live =>
      have split := bytesOf_retain (streams.table guest) live
      rw [ClientStreams.buffered_withTable, ClientStreams.buffered_split streams guest,
        subbed_dropAll, added_dropAll]
      simp only [unreleased]
      omega
  | opened guest stream touched absent room apart =>
      rw [ClientStreams.buffered_withTable, ClientStreams.buffered_split streams guest,
        bytesOf_opened _ absent]
      rfl
  | refused guest stream pending present =>
      have split := bytesOf_closed _ present
      rw [ClientStreams.buffered_withTable, ClientStreams.buffered_split streams guest]
      simp only [subbed, added, unreleased, PendingClipboard.drop, List.map_cons, List.map_nil,
        List.sum_cons, List.sum_nil]
      omega
  | appended guest stream pending blob decoded touched present read fits within =>
      rw [ClientStreams.buffered_withTable, ClientStreams.buffered_split streams guest,
        bytesOf_appended _ present]
      simp only [subbed, added, unreleased, List.map_cons, List.map_nil, List.sum_cons,
        List.sum_nil]
      omega
  | finished guest stream pending present =>
      have split := bytesOf_closed _ present
      rw [ClientStreams.buffered_withTable, ClientStreams.buffered_split streams guest]
      simp only [subbed, added, unreleased, List.map_cons, List.map_nil, List.sum_cons,
        List.sum_nil]
      omega
  | uploadOpened stream apart fresh room => rfl
  | uploadClosed stream => rfl

theorem StreamChain.balance (chain : StreamChain base64 streams changes ops next) :
    next.buffered + subbed ops + (changes.map unreleased).sum =
      streams.buffered + added ops := by
  induction chain with
  | nil streams => rfl
  | cons step rest ih =>
      have head := step.balance
      rw [subbed_append, added_append, List.map_cons, List.sum_cons]
      omega

end Strata.Actor
