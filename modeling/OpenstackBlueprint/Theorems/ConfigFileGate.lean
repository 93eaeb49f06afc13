import OpenstackBlueprint.Gates.ConfigFiles

/-!
# What the config-file gate calls delivered

A file that `delivered` names is in the container if the key it is counted for is
the name of a file of the mounted volume. Keys and files differ where `items`
renames a key or names one that the source lacks, and where the table of payloads
holds an object of the other kind under the source's name
(`delivered_files_exist_iff`).
-/

namespace OpenstackBlueprint.Theorems.ConfigFileGate

open Kit Gates.ConfigFiles

variable {decode : String → Option String} {docs : List Doc} {spec : PodSpec}
  {container : Container} {m : VolumeMount} {k path : String}

/-! ## What the kubelet puts into a container -/

/-- A rendered object of the kind and the name has the key. -/
def SourceKey (docs : List Doc) (kind : SourceKind) (name k : String) : Prop :=
  ∃ d ∈ sources docs, d.kind = kind ∧ d.name = name ∧ (k ∈ d.data.keys ∨ k ∈ d.moreKeys)

/-- The files of a volume: one for each key of its source, or, with items, the paths
of those whose key the source has. -/
def VolumeHolds (docs : List Doc) : Source → String → Prop
  | .object kind name items, file =>
    if items = [] then SourceKey docs kind name file
    else ∃ i ∈ items, i.path = file ∧ SourceKey docs kind name i.key
  | .other, _ => False

/-- Where a file of the volume is found: at the mount path if it is the `subPath`, and
below it if there is none. -/
def MountsFile (docs : List Doc) (spec : PodSpec) (m : VolumeMount) (path : String) : Prop :=
  ∃ file, VolumeHolds docs (sourceOf spec m) file ∧
    if m.subPath = "" then path = rstripSlash m.mountPath ++ "/" ++ file
    else m.subPath = file ∧ path = rstripSlash m.mountPath

/-- The path is a file of some ConfigMap or Secret volume of the container. -/
def Materialized (docs : List Doc) (spec : PodSpec) (container : Container) (path : String) :
    Prop :=
  ∃ m ∈ container.volumeMounts, MountsFile docs spec m path

/-! ## What the gate counts -/

/-- The keys of an object whose texts are read. -/
def ReadKey (decode : String → Option String) (d : SourceDoc) (k : String) : Prop :=
  ∃ text, (k, text) ∈ d.data.entries ∧ (d.kind = .secret → (decode text).isSome)

/-- The key stands for a file of the mount: the key of an item, or, without items, a
key of the last object of the source's name. -/
def Counted (decode : String → Option String) (docs : List Doc) (spec : PodSpec)
    (m : VolumeMount) (k : String) : Prop :=
  rstripSlash m.mountPath ≠ "" ∧ (m.subPath = "" ∨ m.subPath = k) ∧
    ∃ kind name items, sourceOf spec m = .object kind name items ∧ name ≠ "" ∧
      if items = [] then
        ∃ d, (sources docs).reverse.find? (fun d => d.name = name) = some d ∧ ReadKey decode d k
      else k ≠ "" ∧ ∃ i ∈ items, i.key = k

/-- The path of the file that a counted key stands for. -/
def countedPath (m : VolumeMount) (k : String) : String :=
  if m.subPath = "" then rstripSlash m.mountPath ++ "/" ++ k else rstripSlash m.mountPath

theorem mem_keys_body {d : SourceDoc} : k ∈ (body decode d).keys ↔ ReadKey decode d k := by
  unfold body ReadKey
  rw [Dict.mem_keys_ofList, List.mem_map]
  simp only [List.mem_filterMap]
  cases hkind : d.kind with
  | configMap =>
    constructor
    · rintro ⟨e, ⟨e', he', heq⟩, rfl⟩
      obtain rfl := Option.some.inj heq
      exact ⟨e'.2, he', fun h => by cases h⟩
    · rintro ⟨text, he, -⟩
      exact ⟨_, ⟨_, he, rfl⟩, rfl⟩
  | secret =>
    constructor
    · rintro ⟨e, ⟨e', he', heq⟩, rfl⟩
      obtain ⟨text, htext, rfl⟩ := Option.map_eq_some_iff.mp heq
      exact ⟨e'.2, he', fun _ => Option.isSome_of_eq_some htext⟩
    · rintro ⟨text, he, hdecode⟩
      obtain ⟨decoded, hdecoded⟩ := Option.isSome_iff_exists.mp (hdecode rfl)
      exact ⟨(k, decoded), ⟨(k, text), he, by simp [hdecoded]⟩, rfl⟩

theorem get?_payloads {name : String} :
    (payloads decode docs).get? name =
      ((sources docs).reverse.find? fun d => d.name = name).map (body decode) := by
  unfold payloads
  rw [Dict.get?_ofList_eq_last, ← List.map_reverse, List.find?_map]
  simp [Function.comp_def]

theorem mem_keys {kind : SourceKind} {name : String} {items : List Item} :
    k ∈ (Source.object kind name items).keys (payloads decode docs) ↔
      if items = [] then
        ∃ d, (sources docs).reverse.find? (fun d => d.name = name) = some d ∧ ReadKey decode d k
      else k ≠ "" ∧ ∃ i ∈ items, i.key = k := by
  unfold Source.keys
  dsimp only
  by_cases hitems : items = []
  · rw [hitems, List.isEmpty_nil, if_pos rfl, if_pos rfl, get?_payloads]
    cases (sources docs).reverse.find? (fun d => d.name = name) with
    | none => simp
    | some d => simp [mem_keys_body]
  · rw [if_neg (by simpa using hitems), if_neg hitems, List.mem_filter, List.mem_map,
      decide_eq_true_eq, and_comm]

theorem counted_iff {kind : SourceKind} {name : String} {items : List Item}
    (hsource : sourceOf spec m = .object kind name items) :
    Counted decode docs spec m k ↔
      (rstripSlash m.mountPath ≠ "" ∧ name ≠ "") ∧ (m.subPath = "" ∨ m.subPath = k) ∧
        k ∈ (Source.object kind name items).keys (payloads decode docs) := by
  unfold Counted
  rw [mem_keys, hsource]
  constructor
  · rintro ⟨hpath, hsub, kind', name', items', heq, hname, hkey⟩
    obtain ⟨rfl, rfl, rfl⟩ := Source.object.inj heq
    exact ⟨⟨hpath, hname⟩, hsub, hkey⟩
  · rintro ⟨⟨hpath, hname⟩, hsub, hkey⟩
    exact ⟨hpath, hsub, kind, name, items, rfl, hname, hkey⟩

/-- The files of a mount are the paths of the counted keys. -/
theorem mem_mountFiles :
    path ∈ mountFiles (payloads decode docs) spec m ↔
      ∃ k, Counted decode docs spec m k ∧ path = countedPath m k := by
  cases hsource : sourceOf spec m with
  | other => simp [mountFiles, Counted, hsource, Source.name]
  | object kind name items =>
    simp only [counted_iff hsource]
    unfold mountFiles countedPath
    dsimp only
    rw [hsource]
    by_cases hmount : rstripSlash m.mountPath ≠ "" ∧ name ≠ ""
    · have hpath : ¬ (rstripSlash m.mountPath = "" ∨ (Source.object kind name items).name = none) := by
        simp [Source.name, hmount.1, hmount.2]
      rw [if_neg hpath]
      by_cases hsub : m.subPath = ""
      · -- one file for each key
        simp only [hsub, ne_eq, not_true_eq_false, if_false, if_true, true_or, true_and, hmount,
          not_false_eq_true, and_self, List.mem_map]
        simp only [eq_comm]
      · -- the one file the mount selects
        simp only [ne_eq, hsub, not_false_eq_true, if_true, if_false, false_or, hmount, and_self,
          true_and]
        split
        · rename_i hkey
          simp [hkey]
        · rename_i hkey
          simp [hkey]
    · have hpath : rstripSlash m.mountPath = "" ∨ (Source.object kind name items).name = none := by
        by_cases hmp : rstripSlash m.mountPath = ""
        · exact .inl hmp
        · exact .inr (if_pos (by_contra fun hname => hmount ⟨hmp, hname⟩))
      rw [if_pos hpath]
      simp [hmount]

/-- Every file that `delivered` names is in the container if and only if each counted
key is a file of the mounted volume, or another mount puts a file at the same path. -/
theorem delivered_files_exist_iff :
    (∀ path ∈ (delivered spec container (payloads decode docs)).1,
      Materialized docs spec container path) ↔
    ∀ m ∈ container.volumeMounts, ∀ k, Counted decode docs spec m k →
      VolumeHolds docs (sourceOf spec m) k ∨
        ∃ m' ∈ container.volumeMounts, m' ≠ m ∧ MountsFile docs spec m' (countedPath m k) := by
  have hholds : ∀ m k, Counted decode docs spec m k →
      (MountsFile docs spec m (countedPath m k) ↔ VolumeHolds docs (sourceOf spec m) k) := by
    rintro m k ⟨-, hsub, -⟩
    unfold MountsFile countedPath
    constructor
    · rintro ⟨file, hfile, hpath⟩
      split at hpath
      · rw [(String.append_right_inj _).mp hpath]
        exact hfile
      · rename_i hne
        rw [← hsub.resolve_left hne, hpath.1]
        exact hfile
    · intro h
      refine ⟨k, h, ?_⟩
      split
      · rfl
      · rename_i hne
        exact ⟨hsub.resolve_left hne, rfl⟩
  unfold delivered Materialized
  simp only [List.mem_flatMap, mem_mountFiles]
  constructor
  · intro h m hm k hk
    obtain ⟨m', hm', hfile⟩ := h _ ⟨m, hm, k, hk, rfl⟩
    by_cases hsame : m' = m
    · subst hsame
      exact .inl ((hholds _ _ hk).mp hfile)
    · exact .inr ⟨m', hm', hsame, hfile⟩
  · rintro h path ⟨m, hm, k, hk, rfl⟩
    rcases h m hm k hk with hfile | ⟨m', hm', -, hfile⟩
    · exact ⟨m, hm, (hholds m k hk).mpr hfile⟩
    · exact ⟨m', hm', hfile⟩

/-- A ConfigMap with one file, which the volume renames. -/
def novaEtc : Doc :=
  .source ⟨.configMap, "nova-etc", .ofList [("nova.conf", "[DEFAULT]")], []⟩

def renamingPod : PodSpec where
  volumes := [⟨"etc", .object .configMap "nova-etc" [⟨"nova.conf", "nova-compute.conf"⟩]⟩]
  initContainers := []
  containers := []

def renamingContainer : Container where
  name := "nova-compute"
  command := []
  volumeMounts := [⟨"etc", "/etc/nova", ""⟩]

/-- The gate calls a file delivered that the volume holds under another name. -/
theorem renamed_file_called_delivered :
    ¬ ∀ (decode : String → Option String) (docs : List Doc) (spec : PodSpec)
      (container : Container), ∀ path ∈ (delivered spec container (payloads decode docs)).1,
      Materialized docs spec container path := by
  intro h
  obtain ⟨m, hm, file, hfile, hpath⟩ := h some [novaEtc] renamingPod renamingContainer
    "/etc/nova/nova.conf" (by decide)
  obtain rfl := List.mem_singleton.mp hm
  have hholds : VolumeHolds [novaEtc]
      (.object .configMap "nova-etc" [⟨"nova.conf", "nova-compute.conf"⟩]) file := hfile
  unfold VolumeHolds at hholds
  dsimp only at hholds
  rw [if_neg (by simp)] at hholds
  obtain ⟨i, hi, rfl, -⟩ := hholds
  obtain rfl := List.mem_singleton.mp hi
  rw [if_pos rfl] at hpath
  exact absurd hpath (by decide)

end OpenstackBlueprint.Theorems.ConfigFileGate
