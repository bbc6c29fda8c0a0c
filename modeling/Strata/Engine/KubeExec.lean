import Mathlib.Tactic
import Strata.Lib.Percent
import Strata.Lib.Pieces
import Strata.Lib.RustVec

/-! The request path of a Kubernetes exec session (`kube/mod.rs`): what an API server reads from
it is what the configuration says. -/

namespace Strata.Engine.Kube

open Utf8 (Text)
open Pieces (intercalate_cons_eq notMem_intercalate)

structure KubeConfig where
  nameSpace : Text
  pod : Text
  container : Option Text
  command : List Text
  deriving DecidableEq, Repr

def unreserved (byte : UInt8) : Bool :=
  (48 ≤ byte && byte ≤ 57) || (65 ≤ byte && byte ≤ 90) || (97 ≤ byte && byte ≤ 122) ||
    byte == 0x2d || byte == 0x5f || byte == 0x2e || byte == 0x7e

def encode (value : Text) : Text := Percent.encode unreserved value

def containerText : Option Text → Text
  | some container => if container = [] then [] else "&container=".toList ++ encode container
  | none => []

def execPath (config : KubeConfig) : Text :=
  "/api/v1/namespaces/".toList ++ encode config.nameSpace ++ "/pods/".toList ++
    encode config.pod ++ "/exec?stdin=true&stdout=true&tty=true".toList ++
    containerText config.container ++
    config.command.flatMap fun argument => "&command=".toList ++ encode argument

/-! ### Reading a path -/

def readParameter (item : Text) : Option (Text × Text) :=
  match item.splitOn '=' with
  | [name, value] => do return (← Percent.decode name, ← Percent.decode value)
  | _ => none

/-- The segments of the path and the parameters of the query, both decoded. -/
def readRequest (path : Text) : Option (List Text × List (Text × Text)) :=
  match path.splitOn '?' with
  | [front, query] => do
      let segments ← (front.splitOn '/').mapM Percent.decode
      let parameters ← (query.splitOn '&').mapM readParameter
      return (segments, parameters)
  | _ => none

def segments (config : KubeConfig) : List Text :=
  [[], "api".toList, "v1".toList, "namespaces".toList, config.nameSpace, "pods".toList,
    config.pod, "exec".toList]

def parameters (config : KubeConfig) : List (Text × Text) :=
  [("stdin".toList, "true".toList), ("stdout".toList, "true".toList),
    ("tty".toList, "true".toList)] ++
  (config.container.toList.filter (· ≠ [])).map ("container".toList, ·) ++
  config.command.map ("command".toList, ·)

/-! ### Writing it -/

def writeParameter (parameter : Text × Text) : Text :=
  ['='].intercalate [encode parameter.1, encode parameter.2]

theorem encode_fixed : ∀ name ∈ ["api", "v1", "namespaces", "pods", "exec", "stdin", "stdout",
    "tty", "true", "container", "command"], encode name.toList = name.toList := by
  decide +kernel

theorem writeParameter_eq {name : String} (fixed : encode name.toList = name.toList)
    (value : Text) : writeParameter (name.toList, value) = name.toList ++ '=' :: encode value := by
  rw [writeParameter, intercalate_cons_eq, fixed]
  simp

theorem front_eq (config : KubeConfig) :
    "/api/v1/namespaces/".toList ++ encode config.nameSpace ++ "/pods/".toList ++
        encode config.pod ++ "/exec".toList =
      ['/'].intercalate ((segments config).map encode) := by
  simp only [-String.reduceToList, segments, List.map_cons, List.map_nil, intercalate_cons_eq,
    List.flatMap_cons, List.flatMap_nil, List.append_nil, List.append_assoc,
    encode_fixed "api" (by decide), encode_fixed "v1" (by decide),
    encode_fixed "namespaces" (by decide), encode_fixed "pods" (by decide),
    encode_fixed "exec" (by decide)]
  rfl

def choices (config : KubeConfig) : List (Text × Text) :=
  (config.container.toList.filter (· ≠ [])).map ("container".toList, ·) ++
    config.command.map ("command".toList, ·)

theorem choices_eq (config : KubeConfig) :
    containerText config.container ++
        (config.command.flatMap fun argument => "&command=".toList ++ encode argument) =
      ((choices config).map writeParameter).flatMap ('&' :: ·) := by
  rw [choices, List.map_append, List.flatMap_append]
  congr 1
  · cases config.container with
    | none => rfl
    | some container =>
        by_cases empty : container = []
        · rw [empty]
          rfl
        · have kept : (some container).toList.filter (· ≠ []) = [container] := by simp [empty]
          rw [kept, containerText, if_neg empty, List.map_singleton, List.map_singleton,
            List.flatMap_singleton,
            writeParameter_eq (encode_fixed "container" (by decide))]
          rfl
  · rw [List.map_map, List.flatMap_map]
    refine congrArg config.command.flatMap (funext fun argument => ?_)
    rw [Function.comp, writeParameter_eq (encode_fixed "command" (by decide))]
    rfl

theorem query_eq (config : KubeConfig) :
    "stdin=true&stdout=true&tty=true".toList ++
        ((choices config).map writeParameter).flatMap ('&' :: ·) =
      ['&'].intercalate ((parameters config).map writeParameter) := by
  simp only [-String.reduceToList, parameters, List.append_assoc, List.cons_append, List.nil_append,
    List.map_cons, intercalate_cons_eq, List.flatMap_cons,
    writeParameter_eq (encode_fixed "stdin" (by decide)),
    writeParameter_eq (encode_fixed "stdout" (by decide)),
    writeParameter_eq (encode_fixed "tty" (by decide)), encode_fixed "true" (by decide)]
  rfl

theorem execPath_eq (config : KubeConfig) :
    execPath config = ['?'].intercalate [['/'].intercalate ((segments config).map encode),
      ['&'].intercalate ((parameters config).map writeParameter)] := by
  have cut : "/exec?stdin=true&stdout=true&tty=true".toList =
      "/exec".toList ++ ('?' :: "stdin=true&stdout=true&tty=true".toList) := by simp
  rw [intercalate_cons_eq '?', ← front_eq config, ← query_eq config, ← choices_eq config,
    List.flatMap_singleton]
  -- The equation of `execPath` would be looked for by evaluating its literals.
  delta execPath
  rw [cut]
  simp only [-String.reduceToList, List.append_assoc, List.cons_append]

theorem decode_encode (text : Text) : Percent.decode (encode text) = some text := by
  apply Percent.decode_encode
  have table : ∀ n < 256, unreserved (UInt8.ofNat n) = true →
      (UInt8.ofNat n).toNat < 128 ∧ UInt8.ofNat n ≠ 0x25 := by decide +kernel
  intro byte
  have here := table byte.toNat byte.toNat_lt
  rwa [UInt8.ofNat_toNat] at here

theorem notMem_encode {mark : Char} (separates : mark ∈ ['/', '?', '&', '=']) (text : Text) :
    mark ∉ encode text := by
  apply Percent.notMem_encode
  have table : ∀ n < 256, ['/', '?', '&', '='].all fun mark =>
      !(Percent.piece unreserved (UInt8.ofNat n)).contains mark := by decide +kernel
  intro byte
  have here := List.all_eq_true.mp (table byte.toNat byte.toNat_lt) mark separates
  rw [UInt8.ofNat_toNat, Bool.not_eq_true', List.contains_eq_mem] at here
  exact of_decide_eq_false here

theorem notMem_encoded {mark : Char} (separates : mark ∈ ['/', '?', '&', '=']) (texts : List Text) :
    ∀ piece ∈ texts.map encode, mark ∉ piece := by
  intro piece member
  obtain ⟨text, -, rfl⟩ := List.mem_map.mp member
  exact notMem_encode separates text

theorem notMem_written {mark : Char} (separates : mark ∈ ['/', '?', '&', '=']) (apart : mark ≠ '=')
    (parameters : List (Text × Text)) : ∀ item ∈ parameters.map writeParameter, mark ∉ item := by
  intro item member
  obtain ⟨parameter, -, rfl⟩ := List.mem_map.mp member
  exact notMem_intercalate apart (notMem_encoded separates [parameter.1, parameter.2])

theorem readParameter_write (parameter : Text × Text) :
    readParameter (writeParameter parameter) = some parameter := by
  have split : (writeParameter parameter).splitOn '=' =
      [encode parameter.1, encode parameter.2] :=
    List.splitOn_intercalate '=' (notMem_encoded (by decide) [parameter.1, parameter.2])
      (List.cons_ne_nil _ _)
  rw [readParameter, split]
  simp only [decode_encode, Option.bind_eq_bind, Option.bind_some]
  rfl

/-- Every segment and every parameter that the path carries is read from it, and nothing more. -/
theorem readRequest_execPath (config : KubeConfig) :
    readRequest (execPath config) = some (segments config, parameters config) := by
  have front : (['/'].intercalate ((segments config).map encode)).splitOn '/' =
      (segments config).map encode :=
    List.splitOn_intercalate '/' (notMem_encoded (by decide) _) (List.cons_ne_nil _ _)
  have query : (['&'].intercalate ((parameters config).map writeParameter)).splitOn '&' =
      (parameters config).map writeParameter :=
    List.splitOn_intercalate '&' (notMem_written (by decide) (by decide) _)
      (List.cons_ne_nil _ _)
  have parts : (execPath config).splitOn '?' = [['/'].intercalate ((segments config).map encode),
      ['&'].intercalate ((parameters config).map writeParameter)] := by
    rw [execPath_eq]
    refine List.splitOn_intercalate '?' ?_ (List.cons_ne_nil _ _)
    simp only [List.forall_mem_cons]
    exact ⟨notMem_intercalate (by decide) (notMem_encoded (by decide) _),
      notMem_intercalate (by decide) (notMem_written (by decide) (by decide) _),
      List.forall_mem_nil _⟩
  have names : (segments config).mapM (Percent.decode ∘ encode) =
      some ((segments config).map id) := RustVec.mapM_eq_some fun text _ => decode_encode text
  have values : (parameters config).mapM (readParameter ∘ writeParameter) =
      some ((parameters config).map id) :=
    RustVec.mapM_eq_some fun parameter _ => readParameter_write parameter
  rw [readRequest, parts]
  simp only [front, query, List.mapM_map, names, values, List.map_id]
  rfl

/-- An empty container and none make the same path. -/
theorem execPath_empty_container :
    execPath ⟨"a".toList, "b".toList, some [], []⟩ = execPath ⟨"a".toList, "b".toList, none, []⟩ ∧
      readRequest (execPath ⟨"a".toList, "b".toList, some [], []⟩) =
        some (segments ⟨"a".toList, "b".toList, none, []⟩,
          [("stdin".toList, "true".toList), ("stdout".toList, "true".toList),
            ("tty".toList, "true".toList)]) := by
  decide +kernel

example : execPath ⟨"a/b".toList, "é".toList, some "c d".toList, ["x=1".toList]⟩ =
    ("/api/v1/namespaces/a%2Fb/pods/%C3%A9/exec?stdin=true&stdout=true&tty=true" ++
      "&container=c%20d&command=x%3D1").toList := by decide +kernel

end Strata.Engine.Kube
