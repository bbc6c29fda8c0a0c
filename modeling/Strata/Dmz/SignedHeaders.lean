import Mathlib.Tactic
import Strata.Dmz.EdgeSigner

/-! The signed bundle on the wire: which values the signer puts under the MAC, and what a
reader of the signed request finds under each of their names. -/

namespace Strata.Dmz

open Utf8 (Text Bytes)
open Tables (Table)
open Http (Visible isVisibleChar isVisibleChar_iff)

variable (http : Http)

/-! ### Sanitised fields -/

/-- The value under the MAC, from the one that was asked for. -/
def sanitised (value : Text) : Text :=
  if http.fromStr value = none then cleaned value else value

theorem visible_cleaned (text : Text) : Visible (cleaned text) := by
  intro c member
  have kept := (List.mem_filter.mp member).2
  simp only [Bool.and_eq_true, decide_eq_true_eq, Bool.not_eq_true', Bool.or_eq_false_iff,
    decide_eq_false_iff_not, beq_eq_false_iff_ne] at kept
  rw [isVisibleChar_iff]
  omega

theorem visible_sanitised_iff (value : Text) :
    Visible (sanitised http value) ↔ http.fromStr value = none ∨ Visible value := by
  rw [sanitised]
  by_cases broken : http.fromStr value = none
  · simp [broken, visible_cleaned]
  · simp [broken]

theorem fromStr_sanitised (value : Text) :
    http.fromStr (sanitised http value) = some (Utf8.encode (sanitised http value)) := by
  rw [sanitised]
  split
  · exact http.fromStr_visible _ (visible_cleaned value)
  · rename_i valid
    obtain ⟨bytes, taken⟩ := Option.ne_none_iff_exists'.mp valid
    rw [taken, http.fromStr_bytes _ _ taken]

theorem sanitised_sanitised (value : Text) :
    sanitised http (sanitised http value) = sanitised http value := by
  rw [sanitised, fromStr_sanitised, if_neg nofun]

theorem sanitised_of_visible {value : Text} (visible : Visible value) :
    sanitised http value = value := by
  rw [sanitised, http.fromStr_visible _ visible, if_neg nofun]

theorem sanitise_lookup (canon : Table Text Text) (name field : Text) :
    (sanitise http canon name).lookup field =
      if field = name then (canon.lookup field).map (sanitised http) else canon.lookup field := by
  have kept {value : Text} (valid : http.fromStr value ≠ none)
      (present : canon.lookup name = some value) :
      canon.lookup field =
        if field = name then (canon.lookup field).map (sanitised http) else canon.lookup field := by
    split
    · rename_i same
      rw [same, present, Option.map_some, sanitised, if_neg valid]
    · rfl
  rw [sanitise]
  split
  · rename_i absent
    split
    · rename_i same
      rw [same, absent, Option.map_none]
    · rfl
  · rename_i present
    exact kept (by rw [http.fromStr_visible [] nofun]; exact nofun) present
  · rename_i value _ present
    split
    · rename_i broken
      by_cases same : field = name
      · rw [if_pos same, same, AList.lookup_insert, present, Option.map_some, sanitised,
          if_pos broken]
      · rw [if_neg same, AList.lookup_insert_ne same]
    · rename_i valid
      exact kept valid present

theorem foldl_sanitise_lookup (names : List Text) (canon : Table Text Text) (field : Text) :
    (names.foldl (sanitise http) canon).lookup field =
      if field ∈ names then (canon.lookup field).map (sanitised http) else canon.lookup field := by
  induction names generalizing canon with
  | nil => simp
  | cons name names ih =>
      have twice : sanitised http ∘ sanitised http = sanitised http :=
        funext (sanitised_sanitised http)
      rw [List.foldl_cons, ih, sanitise_lookup]
      by_cases first : field = name
      · simp [first, Option.map_map, twice]
      · simp [first]

theorem visible_address (ip : Net.IpAddr) : Visible ip.text := by
  intro c member
  have range := Net.isAddressChar_range (ip.text_chars c member)
  rw [isVisibleChar_iff]
  omega

theorem visible_resolveClientIp (signer : HmacEdgeSigner) (headers : HeaderMap)
    (peer : Option Net.IpAddr) : Visible (resolveClientIp http signer headers peer) := by
  have unknown : Visible "0.0.0.0".toList := by decide
  unfold resolveClientIp
  split
  · exact unknown
  · split
    · split
      · split <;> exact visible_address _
      · exact visible_address _
    · exact visible_address _

theorem resolveClientIp_ne_nil (signer : HmacEdgeSigner) (headers : HeaderMap)
    (peer : Option Net.IpAddr) : resolveClientIp http signer headers peer ≠ [] := by
  unfold resolveClientIp
  split
  · decide
  · split
    · split
      · split <;> exact Net.IpAddr.text_ne_nil _
      · exact Net.IpAddr.text_ne_nil _
    · exact Net.IpAddr.text_ne_nil _

theorem truncated_subset (limit : Nat) (text : Text) : ∀ c ∈ truncated limit text, c ∈ text := by
  induction text generalizing limit with
  | nil => exact fun c member => member
  | cons first text ih =>
      rw [truncated]
      split
      · intro c member
        rcases List.mem_cons.mp member with rfl | later
        · exact List.mem_cons_self
        · exact List.mem_cons_of_mem _ (ih _ c later)
      · exact nofun

theorem visible_userAgent (headers : HeaderMap) : Visible (userAgent http headers) := by
  rw [userAgent]
  split
  · rename_i text read
    obtain ⟨value, -, line⟩ := Option.bind_eq_some_iff.mp read
    have visible := http.toStr_visible line
    split
    · exact fun c member => visible c (truncated_subset _ _ c member)
    · exact visible
  · exact nofun

def IsUuidText (text : Text) : Prop := ∀ c ∈ text, RustInt.isDigitOf 16 c = true ∨ c = '-'

instance (text : Text) : Decidable (IsUuidText text) := List.decidableBAll _ text

theorem visible_uuid {text : Text} (uuid : IsUuidText text) : Visible text := by
  intro c member
  rcases uuid c member with digit | rfl
  · have range := Net.isAddressChar_range (c := c) (by simp [Net.isAddressChar, digit])
    rw [isVisibleChar_iff]
    omega
  · decide

theorem visible_requestId (headers : HeaderMap) {freshUuid : Text} (uuid : IsUuidText freshUuid) :
    Visible (requestId http headers freshUuid) := by
  rw [requestId]
  cases asked : ((http.get headers "x-request-id".toList).bind http.toStr).filter isRequestId with
  | none => exact visible_uuid uuid
  | some text =>
      obtain ⟨value, -, line⟩ := Option.bind_eq_some_iff.mp (Option.filter_eq_some_iff.mp asked).1
      exact http.toStr_visible line

theorem visible_intText (n : Int) : Visible (RustInt.intText n) := by
  have digits (m : Nat) : Visible (RustInt.natText m) := by
    intro c member
    have range := RustInt.isDigit_toNat (RustInt.natText_isDigit m c member)
    rw [isVisibleChar_iff]
    omega
  rw [RustInt.intText_eq]
  split
  · exact digits _
  · exact List.forall_mem_cons.mpr ⟨by decide, digits _⟩

def linkIdHeader : Text := "x-strata-edge-link-id".toList

def timestampMsHeader : Text := "x-strata-edge-timestamp-ms".toList

def askedFields (signer : HmacEdgeSigner) (request : Request) : Table Text Text :=
  let headers := http.removeIf isStripped request.headers
  ((((((((∅ : Table Text Text).insert clientIpHeader
    (resolveClientIp http signer request.headers request.peer)).insert
    "x-strata-edge-tls-version".toList []).insert "x-strata-edge-tls-cipher".toList []).insert
    "x-strata-edge-tls-ja3".toList []).insert
    "x-strata-edge-user-agent".toList (userAgent http headers)).insert
    "x-strata-edge-request-id".toList (requestId http headers request.freshUuid)).insert
    linkIdHeader signer.linkId).insert timestampMsHeader (RustInt.intText request.nowMs)

section Fields

variable {http} {signer : HmacEdgeSigner} {request : Request}

theorem canonicalFields_eq : canonicalFields http signer request =
    Link.edgeHeadersCanonical.foldl (sanitise http) (askedFields http signer request) := rfl

theorem canonicalFields_lookup {name : Text} (canonical : name ∈ Link.edgeHeadersCanonical) :
    (canonicalFields http signer request).lookup name =
      ((askedFields http signer request).lookup name).map (sanitised http) := by
  rw [canonicalFields_eq, foldl_sanitise_lookup, if_pos canonical]

theorem canonicalFields_clientIp : (canonicalFields http signer request).lookup clientIpHeader =
    some (resolveClientIp http signer request.headers request.peer) := by
  have asked : (askedFields http signer request).lookup clientIpHeader =
      some (resolveClientIp http signer request.headers request.peer) := by
    rw [askedFields]
    repeat rw [AList.lookup_insert_ne (by decide)]
    exact AList.lookup_insert _
  rw [canonicalFields_lookup (by decide), asked, Option.map_some,
    sanitised_of_visible http (visible_resolveClientIp _ _ _ _)]

theorem canonicalFields_linkId : (canonicalFields http signer request).lookup linkIdHeader =
    some (sanitised http signer.linkId) := by
  have asked : (askedFields http signer request).lookup linkIdHeader = some signer.linkId := by
    rw [askedFields, AList.lookup_insert_ne (by decide)]
    exact AList.lookup_insert _
  rw [canonicalFields_lookup (by decide), asked, Option.map_some]

theorem canonicalFields_timestampMs :
    (canonicalFields http signer request).lookup timestampMsHeader =
      some (RustInt.intText request.nowMs) := by
  have asked : (askedFields http signer request).lookup timestampMsHeader =
      some (RustInt.intText request.nowMs) := AList.lookup_insert _
  rw [canonicalFields_lookup (by decide), asked, Option.map_some,
    sanitised_of_visible http (visible_intText _)]

theorem askedFields_visible (uuid : IsUuidText request.freshUuid) :
    ∀ name ∈ Link.edgeHeadersCanonical, name ≠ linkIdHeader →
      ∃ value, (askedFields http signer request).lookup name = some value ∧ Visible value := by
  have empty : Visible [] := nofun
  let kept := http.removeIf isStripped request.headers
  simp only [Link.edgeHeadersCanonical, List.forall_mem_cons, askedFields]
  refine ⟨fun _ => ⟨_, ?_, visible_resolveClientIp http signer request.headers request.peer⟩,
    fun _ => ⟨[], ?_, empty⟩, fun _ => ⟨[], ?_, empty⟩, fun _ => ⟨[], ?_, empty⟩,
    fun _ => ⟨_, ?_, visible_userAgent http kept⟩,
    fun _ => ⟨_, ?_, visible_requestId http kept uuid⟩,
    fun other => absurd rfl other, fun _ => ⟨_, ?_, visible_intText request.nowMs⟩,
    List.forall_mem_nil _⟩
  all_goals
    repeat rw [AList.lookup_insert_ne (by decide)]
    exact AList.lookup_insert _

theorem canonicalFields_visible (uuid : IsUuidText request.freshUuid) {name : Text}
    (canonical : name ∈ Link.edgeHeadersCanonical) (other : name ≠ linkIdHeader) :
    ∃ value, (canonicalFields http signer request).lookup name = some value ∧ Visible value := by
  obtain ⟨value, asked, visible⟩ := askedFields_visible uuid name canonical other
  rw [canonicalFields_lookup canonical, asked, Option.map_some, sanitised_of_visible http visible]
  exact ⟨value, rfl, visible⟩

end Fields

/-! ### Readers of the signed request -/

def readings (headers : HeaderMap) (name : Text) : List Text :=
  (headers.values name).filterMap http.toStr

theorem readings_insert (headers : HeaderMap) (name : Text) (value : Bytes) :
    readings http (http.insert headers name value) name = (http.toStr value).toList := by
  rw [readings, http.values_insert, if_pos rfl]
  cases read : http.toStr value <;> simp [read]

theorem readings_insert_ne (headers : HeaderMap) {name field : Text} (value : Bytes)
    (other : field ≠ name) :
    readings http (http.insert headers name value) field = readings http headers field := by
  rw [readings, http.values_insert, if_neg other, readings]

/-- What a reader finds of a field that is under the MAC. -/
def wireField (canon : Table Text Text) (name : Text) : Option Text :=
  (canon.lookup name).bind fun value =>
    if value = [] then none else (http.fromStr value).bind http.toStr

def emit (canon : Table Text Text) (headers : HeaderMap) (name : Text) : HeaderMap :=
  match canon.lookup name with
  | none | some [] => headers
  | some value =>
      match http.fromStr value with
      | some bytes => http.insert headers name bytes
      | none => headers

theorem values_emit_ne (canon : Table Text Text) (headers : HeaderMap) {name field : Text}
    (other : field ≠ name) :
    (emit http canon headers name).values field = headers.values field := by
  rw [emit]
  split
  · rfl
  · rfl
  · split
    · rw [http.values_insert, if_neg other]
    · rfl

theorem values_foldl_emit_ne (canon : Table Text Text) {field : Text} {names : List Text}
    (other : field ∉ names) (headers : HeaderMap) :
    (names.foldl (emit http canon) headers).values field = headers.values field := by
  induction names generalizing headers with
  | nil => rfl
  | cons name names ih =>
      rw [List.mem_cons, not_or] at other
      rw [List.foldl_cons, ih other.2, values_emit_ne http canon headers other.1]

theorem readings_emit (canon : Table Text Text) {headers : HeaderMap} {name : Text}
    (fresh : readings http headers name = [] ∨
      readings http headers name = (wireField http canon name).toList) :
    readings http (emit http canon headers name) name = (wireField http canon name).toList := by
  have unread (silent : wireField http canon name = none) :
      readings http headers name = (wireField http canon name).toList := by
    rcases fresh with none | same
    · rw [none, silent, Option.toList_none]
    · exact same
  rw [emit]
  split
  · rename_i absent
    exact unread (by rw [wireField, absent, Option.bind_none])
  · rename_i empty
    exact unread (by rw [wireField, empty, Option.bind_some, if_pos rfl])
  · rename_i value nonempty present
    split
    · rename_i bytes valid
      rw [readings_insert, wireField, present, Option.bind_some, if_neg nonempty, valid,
        Option.bind_some]
    · rename_i broken
      exact unread (by rw [wireField, present, Option.bind_some, if_neg nonempty, broken,
        Option.bind_none])

theorem readings_foldl_emit (canon : Table Text Text) {field : Text} (names : List Text)
    {headers : HeaderMap}
    (fresh : field ∈ names ∧ readings http headers field = [] ∨
      readings http headers field = (wireField http canon field).toList) :
    readings http (names.foldl (emit http canon) headers) field =
      (wireField http canon field).toList := by
  induction names generalizing headers with
  | nil =>
      rcases fresh with ⟨member, -⟩ | same
      · cases member
      · exact same
  | cons name names ih =>
      apply ih
      by_cases first : field = name
      · subst first
        exact .inr (readings_emit http canon (fresh.imp_left And.right))
      · rw [readings, values_emit_ne http canon headers first, ← readings]
        apply fresh.imp_left
        exact fun inside => ⟨(List.mem_cons.mp inside.1).resolve_left first, inside.2⟩

/-! ### The edge namespace -/

def isEdgeName (name : Text) : Bool := "x-strata-edge-".toList.isPrefixOf name

theorem isStripped_of_edge {name : Text} (edge : isEdgeName name = true) :
    isStripped name = true := by
  rw [isStripped, ← isEdgeName, edge, Bool.true_or, Bool.true_or]

section Signed

variable {http} {hmac : Bytes → Bytes → Bytes} {base64 : Base64.Codec} {signer : HmacEdgeSigner}
  {request : Request}

theorem sign_eq : sign http hmac base64 signer request =
    http.insert (Link.edgeHeadersCanonical.foldl (emit http (canonicalFields http signer request))
      (http.removeIf isStripped request.headers)) Link.edgeHeaderMac
      (Utf8.encode (Link.sign hmac base64 (canonicalFields http signer request) signer.key)) := by
  rw [sign]
  generalize canonicalFields http signer request = canon
  rfl

theorem readings_sign {name : Text} (canonical : name ∈ Link.edgeHeadersCanonical) :
    readings http (sign http hmac base64 signer request) name =
      (wireField http (canonicalFields http signer request) name).toList := by
  have names : ∀ name ∈ Link.edgeHeadersCanonical,
      name ≠ Link.edgeHeaderMac ∧ isEdgeName name = true := by decide
  have ⟨other, edge⟩ := names name canonical
  rw [sign_eq, readings_insert_ne _ _ _ other]
  refine readings_foldl_emit _ _ _ (.inl ⟨canonical, ?_⟩)
  rw [readings, http.values_removeIf, if_pos (isStripped_of_edge edge), List.filterMap_nil]

theorem readings_sign_mac
    (visible : Visible (Link.sign hmac base64 (canonicalFields http signer request) signer.key)) :
    readings http (sign http hmac base64 signer request) Link.edgeHeaderMac =
      [Link.sign hmac base64 (canonicalFields http signer request) signer.key] := by
  rw [sign_eq, readings_insert, http.toStr_encode visible, Option.toList_some]

/-- Outside the signer's own bundle, the lines that are sent are those it is given and does not
strip. -/
theorem values_sign {name : Text}
    (foreign : name ∉ Link.edgeHeaderMac :: Link.edgeHeadersCanonical) :
    (sign http hmac base64 signer request).values name =
      if isStripped name then [] else request.headers.values name := by
  rw [List.mem_cons, not_or] at foreign
  rw [sign_eq, http.values_insert, if_neg foreign.1, values_foldl_emit_ne http _ foreign.2,
    http.values_removeIf]

theorem mem_sign_of_edge {line : Text × Bytes}
    (member : line ∈ sign http hmac base64 signer request) (edge : isEdgeName line.1 = true) :
    line.1 ∈ Link.edgeHeaderMac :: Link.edgeHeadersCanonical := by
  by_contra foreign
  have inside := HeaderMap.mem_values.mpr member
  rw [values_sign foreign, if_pos (isStripped_of_edge edge)] at inside
  cases inside

end Signed

end Strata.Dmz
