import Mathlib.Tactic
import Strata.Engine.Sftp
import Strata.Lib.Pieces

/-! Where the SFTP engine reaches: `resolve_in` compares texts, and what it lets through is
inside the root component by component. -/

namespace Strata.Engine.Sftp

open Utf8 (Text Bytes)
open RustStr (splitOnce rsplitOnce trimEndMatches)

def components (path : Text) : List Text := (path.splitOn '/').filter (· ≠ [])

def Ordinary (name : Text) : Prop :=
  name ≠ [] ∧ name ≠ ".".toList ∧ name ≠ "..".toList ∧ '/' ∉ name

instance (name : Text) : Decidable (Ordinary name) :=
  inferInstanceAs (Decidable (_ ∧ _ ∧ _ ∧ _))

def slashed (names : List Text) : Text := names.flatMap ('/' :: ·)

/-- The absolute path of some ordinary names, without repeated or trailing slashes. -/
def Canonical (path : Text) : Prop :=
  ∃ names, (∀ name ∈ names, Ordinary name) ∧
    path = if names = [] then ['/'] else slashed names

def Host.Canonicalizes {ω : Type} (host : Host ω) : Prop :=
  ∀ world path answer, (host.canonicalize world path).1 = some answer → Canonical answer

def TargetsInside (root path : Text) : Prop :=
  ∃ parent leaf, components path = parent ++ [leaf] ∧ components root <+: parent ∧ Ordinary leaf

theorem components_append (front back : Text) :
    components (front ++ '/' :: back) = components front ++ components back := by
  have cut : (front ++ '/' :: back).splitOn '/' = front.splitOn '/' ++ back.splitOn '/' :=
    List.splitOnP_append_cons front back rfl
  rw [components, cut, List.filter_append]
  rfl

theorem splitOn_slashed {names : List Text} (ordinary : ∀ name ∈ names, Ordinary name) :
    (slashed names).splitOn '/' = [] :: names := by
  have joined : slashed names = ['/'].intercalate ([] :: names) :=
    (Pieces.intercalate_cons_eq '/' [] names).symm
  rw [joined]
  refine List.splitOn_intercalate '/' ?_ (List.cons_ne_nil _ _)
  exact List.forall_mem_cons.mpr ⟨List.not_mem_nil, fun name member => (ordinary name member).2.2.2⟩

theorem components_slashed {names : List Text} (ordinary : ∀ name ∈ names, Ordinary name) :
    components (slashed names) = names := by
  rw [components, splitOn_slashed ordinary, List.filter_cons_of_neg (by simp),
    List.filter_eq_self]
  exact fun name member => decide_eq_true (ordinary name member).1

theorem components_canonical {names : List Text} (ordinary : ∀ name ∈ names, Ordinary name) :
    components (if names = [] then ['/'] else slashed names) = names := by
  split
  · rename_i none
    rw [none]
    decide
  · exact components_slashed ordinary

theorem trimEnd_canonical {names : List Text} (ordinary : ∀ name ∈ names, Ordinary name) :
    trimEndMatches '/' (if names = [] then ['/'] else slashed names) = slashed names := by
  rcases List.eq_nil_or_concat names with rfl | ⟨front, last, rfl⟩
  · rfl
  · obtain ⟨filled, -, -, absent⟩ := ordinary last (by simp)
    obtain ⟨start, c, rfl⟩ := List.eq_nil_or_concat last |>.resolve_left filled
    have other : (c == '/') = false := by
      refine beq_eq_false_iff_ne.mpr ?_
      rintro rfl
      exact absent (by simp)
    rw [if_neg (by simp), trimEndMatches, slashed]
    simp [other]

theorem isWithin_components {roots names : List Text} (ordinary : ∀ name ∈ roots, Ordinary name)
    (ordinary' : ∀ name ∈ names, Ordinary name)
    (inside : isWithin (if roots = [] then ['/'] else slashed roots)
      (if names = [] then ['/'] else slashed names) = true) : roots <+: names := by
  have path := components_canonical ordinary'
  have root := components_slashed ordinary
  simp only [isWithin, trimEnd_canonical ordinary, Bool.or_eq_true, List.isEmpty_iff, beq_iff_eq,
    List.isPrefixOf_iff_prefix] at inside
  rcases inside with (top | same) | ⟨rest, begins⟩
  · rw [top] at root
    rw [← root]
    exact List.nil_prefix
  · rw [same, root] at path
    rw [path]
  · rw [← begins, List.append_assoc] at path
    change components (slashed roots ++ '/' :: rest) = names at path
    rw [components_append, root] at path
    exact ⟨components rest, path⟩

variable {ω : Type} {host : Host ω}

theorem resolveIn_some (answers : host.Canonicalizes) {world : ω} {root name resolved : Text}
    (returned : (resolveIn host world root name).1 = some resolved) :
    ∃ canonical names, (host.canonicalize world root).1 = some canonical ∧
      components canonical <+: names ∧ (∀ name ∈ names, Ordinary name) ∧
      resolved = if names = [] then ['/'] else slashed names := by
  rw [resolveIn] at returned
  cases rooted : (host.canonicalize world root).1 with
  | none =>
      simp only [rooted] at returned
      cases returned
  | some canonical =>
      simp only [rooted, Option.filter_eq_some_iff] at returned
      obtain ⟨answered, inside⟩ := returned
      obtain ⟨roots, ordinary, rfl⟩ := answers _ _ _ rooted
      obtain ⟨names, ordinary', rfl⟩ := answers _ _ _ answered
      refine ⟨_, names, rfl, ?_, ordinary', rfl⟩
      rw [components_canonical ordinary]
      exact isWithin_components ordinary ordinary' inside

theorem leaf_plain (name : Text) : '/' ∉ ((rsplitOnce '/' name).map Prod.snd).getD name := by
  rw [rsplitOnce]
  cases split : splitOnce '/' name.reverse with
  | none =>
      intro member
      change '/' ∈ name at member
      obtain ⟨front, back, same, absent⟩ :=
        List.eq_append_cons_of_mem (List.mem_reverse.mpr member)
      rw [same, RustStr.splitOnce_append _ _ _ absent] at split
      cases split
  | some parts =>
      exact fun member => (RustStr.splitOnce_eq_some split).2 (List.mem_reverse.mp member)

theorem targetsInside_child {root directory leaf : Text} {names : List Text}
    (ordinary : ∀ name ∈ names, Ordinary name)
    (shape : directory = if names = [] then ['/'] else slashed names)
    (inside : components root <+: names) (plain : Ordinary leaf) :
    TargetsInside root (trimEndMatches '/' directory ++ "/".toList ++ leaf) := by
  refine ⟨names, leaf, ?_, inside, plain⟩
  have whole : ∀ name ∈ names ++ [leaf], Ordinary name := by
    simpa [or_imp, forall_and] using ⟨ordinary, plain⟩
  have path : trimEndMatches '/' directory ++ "/".toList ++ leaf = slashed (names ++ [leaf]) := by
    rw [shape, trimEnd_canonical ordinary, slashed, slashed, List.flatMap_append]
    simp
  rw [path, components_slashed whole]

theorem onPut_targets {ι : Type} (answers : host.Canonicalizes) (config : SftpConfig)
    (engine : SftpEngine ι ω) (stream : Int) (name : Text) {other : Int} {upload : Upload}
    (present : (onPut config host engine stream name).uploads.lookup other = some upload) :
    engine.uploads.lookup other = some upload ∨
      ∃ canonical, (host.canonicalize engine.host config.root).1 = some canonical ∧
        TargetsInside canonical upload.remote := by
  simp only [onPut] at present
  split at present
  · exact .inl present
  split at present
  · exact .inl present
  split at present
  · exact .inl present
  next directory returned =>
    split at present
    · exact .inl present
    next ordinary =>
      split at present
      · exact .inl present
      split at present
      · exact .inl present
      split at present
      · rcases Tables.of_lookup_insert engine.uploads present with ⟨-, rfl⟩ | ⟨-, before⟩
        · obtain ⟨canonical, names, rooted, inside, plain, shape⟩ := resolveIn_some answers returned
          refine .inr ⟨canonical, rooted, targetsInside_child plain shape inside ?_⟩
          simp only [Bool.or_eq_true, List.isEmpty_iff, beq_iff_eq, not_or] at ordinary
          exact ⟨ordinary.1.1, ordinary.1.2, ordinary.2, leaf_plain name⟩
        · exact .inl before
      · exact .inl present

/-- With a server that gives canonical paths, what `resolve_in` returns lies inside the root, and
`on_put` opens an upload only to an entry of a directory inside the root. -/
theorem requests_stay_inside {ι : Type} (answers : host.Canonicalizes) (config : SftpConfig)
    (engine : SftpEngine ι ω) (stream : Int) (name : Text) :
    (∀ world root resolved, (resolveIn host world root name).1 = some resolved →
      ∃ canonical, (host.canonicalize world root).1 = some canonical ∧
        components canonical <+: components resolved) ∧
    ∀ other upload, (onPut config host engine stream name).uploads.lookup other = some upload →
      engine.uploads.lookup other = some upload ∨
        ∃ canonical, (host.canonicalize engine.host config.root).1 = some canonical ∧
          TargetsInside canonical upload.remote := by
  constructor
  · intro world root resolved returned
    obtain ⟨canonical, names, rooted, inside, ordinary, rfl⟩ := resolveIn_some answers returned
    refine ⟨canonical, rooted, ?_⟩
    rwa [components_canonical ordinary]
  · exact fun other upload present => onPut_targets answers config engine stream name present

def srvHost : Host Unit where
  canonicalize _ path :=
    (if path = "/srv".toList ∨ path = "/srv/in".toList then some path else none, ())
  metadata _ _ := (none, ())
  symlinkMetadata _ _ := (none, ())
  readDir _ _ := (none, ())
  createStaged _ := (true, ())
  openStaged _ := (true, ())
  writeAll _ _ := (true, ())
  flush _ := (true, ())
  read _ := (none, ())
  finished _ _ := (none, ())
  json _ := []

theorem srvHost_canonicalizes : srvHost.Canonicalizes := by
  intro world path answer answered
  simp only [srvHost] at answered
  split at answered
  · rename_i known
    cases answered
    rcases known with rfl | rfl
    · exact ⟨["srv".toList], by decide, by decide⟩
    · exact ⟨["srv".toList, "in".toList], by decide, by decide⟩
  · cases answered

def srvConfig : SftpConfig := ⟨"/srv".toList, false, false, "files".toList, 100⟩

/-- A listing of `/in` and an upload to `/in/new`, with the server serving `/srv`. -/
theorem requests_stay_inside_srv :
    let engine := attach srvConfig () ()
    (resolveIn srvHost () "/srv".toList "/in".toList).1 = some "/srv/in".toList ∧
      ((onPut srvConfig srvHost engine 7 "/in/new".toList).uploads.lookup 7).map Upload.remote =
        some "/srv/in/new".toList ∧
      (∃ canonical, (srvHost.canonicalize () "/srv".toList).1 = some canonical ∧
        components canonical <+: components "/srv/in".toList) ∧
      ∃ canonical, (srvHost.canonicalize () "/srv".toList).1 = some canonical ∧
        TargetsInside canonical "/srv/in/new".toList := by
  intro engine
  have returned : (resolveIn srvHost () "/srv".toList "/in".toList).1 =
      some "/srv/in".toList := by decide
  have opened : (onPut srvConfig srvHost engine 7 "/in/new".toList).uploads.lookup 7 =
      some ⟨[], "/srv/in/new".toList, "new".toList, 0⟩ := by decide
  have fresh : engine.uploads.lookup 7 = none := by decide
  have stays := requests_stay_inside srvHost_canonicalizes srvConfig engine 7
  refine ⟨returned, by rw [opened]; rfl, (stays "/in".toList).1 () _ _ returned, ?_⟩
  rcases (stays "/in/new".toList).2 7 _ opened with before | inside
  · rw [fresh] at before
    cases before
  · exact inside

end Strata.Engine.Sftp
