import Windmill.Lib.Bytes

/-! # The path of a cached result

`cached_result_path` (`windmill-worker/src/common.rs`) names the resource under which the result of
a job is kept. A digest is fed the kind of the job, its runnable and its arguments in the order of
their names, one after the other and without separators. Jobs with the same path are therefore the
same call exactly if the fields that were fed have the same lengths (`sameCall_iff_layout`). -/

namespace Windmill.Worker.CachedResult

open Lib.Bytes List

inductive JobKind where
  | script
  | scriptHub
  | preview
  | dependencies
  | flow
  | flowPreview
  | singleStepFlow
  | identity
  | flowDependencies
  | appDependencies
  | noop
  | deploymentCallback
  | flowScript
  | flowNode
  | appScript
  | aiAgent
  | unassignedScript
  | unassignedFlow
  | unassignedSinglestepFlow
deriving DecidableEq

def JobKind.toByte : JobKind → UInt8
  | .script => 0
  | .scriptHub => 1
  | .preview => 2
  | .dependencies => 3
  | .flow => 4
  | .flowPreview => 5
  | .singleStepFlow => 6
  | .identity => 7
  | .flowDependencies => 8
  | .appDependencies => 9
  | .noop => 10
  | .deploymentCallback => 11
  | .flowScript => 12
  | .flowNode => 13
  | .appScript => 14
  | .aiAgent => 15
  | .unassignedScript => 16
  | .unassignedFlow => 17
  | .unassignedSinglestepFlow => 18

lemma JobKind.toByte_injective : Function.Injective JobKind.toByte := fun k k' h => by
  cases k <;> cases k' <;> first | rfl | cases h

structure Args where
  entries : List (String × String)
  nodup : (entries.map Prod.fst).Nodup

def Args.get (a : Args) (name : String) : Option String := a.entries.lookup name

def Args.sortedKeys (a : Args) : List String := (a.entries.map Prod.fst).insertionSort (· ≤ ·)

inductive RawData where
  | flow (rawFlow : String)
  | script (code : String)
deriving DecidableEq

structure Job where
  kind : JobKind
  runnableId : Option (BitVec 64)
  runnablePath : Option String
  args : Option Args
  cacheIgnoreS3Path : Option Bool

variable (etag : String → Option String)

/-- What the digest gets for the value of an argument; `etag` gives the etag of the object that a
text denotes. -/
def hashArg (ignoreS3Path : Bool) (value : String) : List UInt8 :=
  match etag value with
  | some tag => utf8 tag ++ (if ignoreS3Path then [] else utf8 value)
  | none => utf8 value

def hashArgs (v : Option Args) (ignoreS3Path : Bool) : List UInt8 :=
  match v with
  | some args => args.sortedKeys.flatMap fun k =>
      utf8 k ++ hashArg etag ignoreS3Path ((args.get k).getD "")
  | none => []

def RawData.bytes : RawData → List UInt8
  | .flow rawFlow => utf8 rawFlow
  | .script code => utf8 code

variable (job : Job)

def fed (rawData : Option RawData) : List UInt8 :=
  [job.kind.toByte] ++
    (match job.runnableId with
    | some hash => leBytes hash
    | none => (job.runnablePath.map utf8).getD [] ++ (rawData.map RawData.bytes).getD []) ++
    hashArgs etag job.args (job.cacheIgnoreS3Path.getD false)

/-- `finalize` gives the digest as a text. -/
def cachedResultPath (finalize : List UInt8 → String) (etag : String → Option String) (job : Job)
    (rawData : Option RawData) : String :=
  "g/results/" ++ finalize (fed etag job rawData)

def Job.arg (name : String) : Option String := job.args.bind fun args => args.get name

def NoS3 : Prop := ∀ args, job.args = some args → ∀ e ∈ args.entries, etag e.2 = none

/-- **The same call**: the kind, the runnable and the arguments are the same. -/
structure SameCall (job job' : Job) (raw raw' : Option RawData) : Prop where
  kind : job.kind = job'.kind
  hash : job.runnableId = job'.runnableId
  runnable : job.runnableId = none → job.runnablePath = job'.runnablePath ∧ raw = raw'
  args : ∀ name, job.arg name = job'.arg name

def RawData.isFlow : RawData → Bool
  | .flow _ => true
  | .script _ => false

/-- Which fields there are, and how long they are. -/
structure Layout where
  byHash : Bool
  path : Option ℕ
  raw : Option (Bool × ℕ)
  args : List (ℕ × ℕ)
deriving DecidableEq

def Job.names : List String :=
  match job.args with
  | some args => args.sortedKeys
  | none => []

def Job.sortedArgs : List (String × String) := job.names.map fun k => (k, (job.arg k).getD "")

/-- What a cache path is made of. -/
def layout (rawData : Option RawData) : Layout where
  byHash := job.runnableId.isSome
  path := if job.runnableId.isSome then none else job.runnablePath.map fun path =>
    (utf8 path).length
  raw := if job.runnableId.isSome then none else rawData.map fun data =>
    (data.isFlow, data.bytes.length)
  args := job.sortedArgs.map fun e => ((utf8 e.1).length, (utf8 e.2).length)

/-! ### The arguments -/

variable {job : Job}

lemma mem_names {k} : k ∈ job.names ↔ (job.arg k).isSome = true := by
  unfold Job.names Job.arg
  cases job.args with
  | none => simp
  | some args =>
    simp only [Args.sortedKeys, Args.get, Option.bind_some]
    rw [mem_insertionSort, mem_map, Option.isSome_iff_ne_none, Ne, lookup_eq_none_iff]
    push Not
    constructor
    · rintro ⟨e, he, rfl⟩
      exact ⟨e, he, by simp⟩
    · rintro ⟨e, he, hk⟩
      exact ⟨e, he, by simpa using Eq.symm (by simpa using hk)⟩

lemma nodup_names (job : Job) : job.names.Nodup := by
  unfold Job.names
  cases job.args with
  | none => exact nodup_nil
  | some args => exact (perm_insertionSort _ _).nodup_iff.mpr args.nodup

lemma pairwise_names (job : Job) : job.names.Pairwise (· ≤ ·) := by
  unfold Job.names
  cases job.args with
  | none => exact List.Pairwise.nil
  | some args => exact pairwise_insertionSort _ _

lemma mem_sortedArgs {e} : e ∈ job.sortedArgs ↔ job.arg e.1 = some e.2 := by
  unfold Job.sortedArgs
  rw [mem_map]
  constructor
  · rintro ⟨k, hk, rfl⟩
    obtain ⟨v, hv⟩ := Option.isSome_iff_exists.mp (mem_names.mp hk)
    rw [hv, Option.getD_some]
  · intro h
    refine ⟨e.1, mem_names.mpr (by rw [h]; rfl), ?_⟩
    rw [h, Option.getD_some]

/-- **Jobs have the same arguments if and only if they are fed in the same order.** -/
theorem sortedArgs_eq_iff {job' : Job} : job.sortedArgs = job'.sortedArgs ↔
    ∀ k, job.arg k = job'.arg k := by
  constructor
  · intro h k
    refine Option.ext fun v => ?_
    have hmem : (k, v) ∈ job.sortedArgs ↔ (k, v) ∈ job'.sortedArgs := by rw [h]
    rw [mem_sortedArgs, mem_sortedArgs] at hmem
    exact hmem
  · intro h
    have hperm : job.names.Perm job'.names := by
      refine (perm_ext_iff_of_nodup (nodup_names job) (nodup_names job')).mpr fun k => ?_
      rw [mem_names, mem_names, h]
    have hnames : job.names = job'.names :=
      hperm.eq_of_pairwise' (pairwise_names job) (pairwise_names job')
    unfold Job.sortedArgs
    rw [hnames]
    exact map_congr_left fun k _ => by rw [h]

lemma mem_entries_of_arg {args : Args} {k v : String} (h : args.get k = some v) :
    (k, v) ∈ args.entries := by
  obtain ⟨l, l', heq, -⟩ := lookup_eq_some_iff.mp h
  rw [heq]
  exact mem_append_right _ mem_cons_self

/-! ### What is fed -/

def fields (job : Job) (rawData : Option RawData) : List (List UInt8) :=
  [job.kind.toByte] ::
    ((match job.runnableId with
      | some hash => [leBytes hash]
      | none => [(job.runnablePath.map utf8).getD [], (rawData.map RawData.bytes).getD []]) ++
    job.sortedArgs.flatMap fun e => [utf8 e.1, utf8 e.2])

lemma hashArgs_eq {etag : String → Option String} {ignore : Bool} (h : NoS3 etag job) :
    hashArgs etag job.args ignore =
    (job.sortedArgs.flatMap fun e => [utf8 e.1, utf8 e.2]).flatten := by
  have hflatten : (job.sortedArgs.flatMap fun e => [utf8 e.1, utf8 e.2]).flatten
      = job.names.flatMap fun k => utf8 k ++ utf8 ((job.arg k).getD "") := by
    unfold Job.sortedArgs
    simp only [flatten_eq_flatMap, flatMap_assoc, flatMap_map]
    simp
  rw [hflatten]
  unfold hashArgs Job.names
  cases hargs : job.args with
  | none => rfl
  | some args =>
    refine flatMap_congr fun k hk => ?_
    have harg : job.arg k = args.get k := by simp [Job.arg, hargs]
    have hsome : (job.arg k).isSome = true := by
      refine mem_names.mp ?_
      unfold Job.names
      rw [hargs]
      exact hk
    rw [harg] at hsome ⊢
    obtain ⟨v, hv⟩ := Option.isSome_iff_exists.mp hsome
    rw [hv, Option.getD_some]
    unfold hashArg
    rw [h args hargs (k, v) (mem_entries_of_arg hv)]

/-- **Without objects of S3 the digest is fed the fields one after the other.** -/
theorem fed_eq {etag rawData} (h : NoS3 etag job) :
    fed etag job rawData = (fields job rawData).flatten := by
  unfold fed fields
  rw [hashArgs_eq h]
  cases job.runnableId <;> simp

lemma argFields_injective : ∀ {l l' : List (String × String)},
    (l.flatMap fun e => [utf8 e.1, utf8 e.2]) = (l'.flatMap fun e => [utf8 e.1, utf8 e.2]) → l = l'
  | [], [], _ => rfl
  | (k, v) :: l, (k', v') :: l', h => by
    simp only [flatMap_cons, cons_append, nil_append, cons.injEq] at h
    obtain ⟨hk, hv, hrest⟩ := h
    rw [utf8_injective hk, utf8_injective hv, argFields_injective hrest]

lemma map_utf8_injective {p p' : Option String}
    (hlen : p.map (fun s => (utf8 s).length) = p'.map fun s => (utf8 s).length)
    (h : (p.map utf8).getD [] = (p'.map utf8).getD []) : p = p' := by
  cases p <;> cases p' <;> simp at hlen h ⊢
  exact utf8_injective h

lemma map_bytes_injective {r r' : Option RawData}
    (hlen : r.map (fun d => (d.isFlow, d.bytes.length)) = r'.map fun d =>
    (d.isFlow, d.bytes.length))
    (h : (r.map RawData.bytes).getD [] = (r'.map RawData.bytes).getD []) : r = r' := by
  cases r with
  | none => cases r' with
    | none => rfl
    | some d' => cases hlen
  | some d => cases r' with
    | none => cases hlen
    | some d' =>
      have hflow : d.isFlow = d'.isFlow := congrArg Prod.fst (Option.some.inj hlen)
      have hbytes : d.bytes = d'.bytes := h
      cases d with
      | flow rawFlow => cases d' with
        | flow rawFlow' => rw [utf8_injective hbytes]
        | script code' => cases hflow
      | script code => cases d' with
        | flow rawFlow' => cases hflow
        | script code' => rw [utf8_injective hbytes]

lemma length_getD_map {α : Type} {f : α → List UInt8} (o : Option α) :
    ((o.map f).getD []).length = (o.map fun a => (f a).length).getD 0 := by
  cases o <;> rfl

lemma length_fields (job : Job) (raw : Option RawData) : (fields job raw).map length =
    1 :: ((if (layout job raw).byHash then [8]
      else [(layout job raw).path.getD 0, ((layout job raw).raw.map Prod.snd).getD 0]) ++
      (layout job raw).args.flatMap fun n => [n.1, n.2]) := by
  unfold fields layout
  rw [map_cons, map_append]
  cases job.runnableId with
  | some hash => simp [leBytes, map_flatMap, flatMap_map]
  | none => simp [length_getD_map, Function.comp_def, map_flatMap, flatMap_map]

/-- **Jobs with the same path are the same call if and only if what was fed for them has the same
layout.** -/
theorem sameCall_iff_layout {finalize : List UInt8 → String} {etag : String → Option String}
    {job job' : Job}
    {raw raw' : Option RawData} (hfin : Function.Injective finalize) (hs3 : NoS3 etag job)
    (hs3' : NoS3 etag job')
    (h : cachedResultPath finalize etag job raw = cachedResultPath finalize etag job' raw') :
    SameCall job job' raw raw' ↔ layout job raw = layout job' raw' := by
  constructor
  · rintro ⟨-, hhash, hrunn, hargs⟩
    unfold layout
    rw [sortedArgs_eq_iff.mpr hargs, ← hhash]
    cases hid : job.runnableId with
    | some hash => rfl
    | none =>
      obtain ⟨hpath, hraw⟩ := hrunn hid
      rw [hpath, hraw]
  intro hlayout
  have hfed : (fields job raw).flatten = (fields job' raw').flatten := by
    rw [← fed_eq hs3, ← fed_eq hs3']
    exact hfin (String.append_right_inj _ |>.mp h)
  have hfs : fields job raw = fields job' raw' :=
    eq_iff_flatten_eq.mpr ⟨hfed, by rw [length_fields, length_fields, hlayout]⟩
  have hbyHash := congrArg Layout.byHash hlayout
  have hpath := congrArg Layout.path hlayout
  have hraw := congrArg Layout.raw hlayout
  simp only [layout] at hbyHash hpath hraw
  obtain ⟨hkind, hrest⟩ := cons_eq_cons.mp hfs
  have hkind : job.kind = job'.kind := JobKind.toByte_injective (singleton_inj.mp hkind)
  cases hid : job.runnableId with
  | some hash =>
    cases hid' : job'.runnableId with
    | none => simp [hid, hid'] at hbyHash
    | some hash' =>
      simp only [hid, hid', cons_append, nil_append, cons.injEq] at hrest
      refine ⟨hkind, ?_, fun hnone => ?_, sortedArgs_eq_iff.mp (argFields_injective hrest.2)⟩
      · rw [hid, hid', leBytes_injective hrest.1]
      · cases hid.symm.trans hnone
  | none =>
    cases hid' : job'.runnableId with
    | some hash' => simp [hid, hid'] at hbyHash
    | none =>
      simp only [hid, hid', cons_append, nil_append, cons.injEq] at hrest
      simp only [hid, hid', Option.isSome_none, Bool.false_eq_true, if_false] at hpath hraw
      exact ⟨hkind, hid.trans hid'.symm, fun _ =>
        ⟨map_utf8_injective hpath hrest.1, map_bytes_injective hraw hrest.2.1⟩,
        sortedArgs_eq_iff.mp (argFields_injective hrest.2.2)⟩

/-! ### Two calls with one path -/

def callWith (name value : String) : Job :=
  { kind := .script, runnableId := some 7, runnablePath := some "f/reports/monthly"
    args := some ⟨[(name, value)], List.nodup_singleton _⟩, cacheIgnoreS3Path := none }

lemma noS3_callWith (name value : String) : NoS3 (fun _ => none) (callWith name value) :=
  fun _ _ _ _ => rfl

/-- A text for every byte string, in the place of the digest. -/
def byteText (bytes : List UInt8) : String := String.ofList (bytes.map Char.ofUInt8)

lemma byteText_injective : Function.Injective byteText := by
  intro l l' heq
  refine map_injective_iff.mpr (fun b b' h => ?_) (String.ofList_injective heq)
  have hval : b.toUInt32 = b'.toUInt32 := congrArg Char.val h
  have hnat := congrArg UInt32.toNat hval
  exact UInt8.toNat_inj.mp (by simpa using hnat)

/-- The same arguments, in the order in which they were sent. -/
def sent (args : List (String × String)) (h : (args.map Prod.fst).Nodup) : Job :=
  { callWith "" "" with args := some ⟨args, h⟩ }

theorem same_path_same_call :
    cachedResultPath byteText (fun _ => none) (sent [("a", "1"), ("b", "2")] (by decide)) none
      = cachedResultPath byteText (fun _ => none) (sent [("b", "2"), ("a", "1")] (by decide)) none ∧
    SameCall (sent [("a", "1"), ("b", "2")] (by decide)) (sent [("b", "2"), ("a", "1")] (by decide))
    none none := by
  have hpath : cachedResultPath byteText (fun _ => none)
    (sent [("a", "1"), ("b", "2")] (by decide)) none
      = cachedResultPath byteText (fun _ => none) (sent [("b", "2"), ("a", "1")] (by decide))
      none := by
    unfold cachedResultPath
    congr 1
  refine ⟨hpath, (sameCall_iff_layout byteText_injective (fun _ _ _ _ => rfl) (fun _ _ _ _ => rfl)
    hpath).mpr ?_⟩
  decide

theorem same_path_other_argument : Function.Injective byteText ∧
    NoS3 (fun _ => none) (callWith "a" "11") ∧ NoS3 (fun _ => none) (callWith "a1" "1") ∧
    cachedResultPath byteText (fun _ => none) (callWith "a" "11") none
      = cachedResultPath byteText (fun _ => none) (callWith "a1" "1") none ∧
    ¬SameCall (callWith "a" "11") (callWith "a1" "1") none none := by
  refine ⟨byteText_injective, noS3_callWith _ _, noS3_callWith _ _, ?_, fun h => ?_⟩
  · have hfed : fed (fun _ => none) (callWith "a" "11") none =
        fed (fun _ => none) (callWith "a1" "1") none := by
      decide
    unfold cachedResultPath
    rw [hfed]
  · have harg := h.args "a"
    revert harg
    decide

end Windmill.Worker.CachedResult
