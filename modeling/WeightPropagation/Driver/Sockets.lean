import Mathlib.Data.Set.Function
import WeightPropagation.Framework.Path
import WeightPropagation.Driver.Buffers

/-!
# The sockets of a node

Each staged buffer has two servers, and each of them first removes what stands at
the path of its socket. The paths are built from the effective buffer id with
`os.path.join`, as `<id>.sock` and `<id>_notify.sock`, in the directory in which the
driver's own `wpi-grpc.sock` stands, and an id is any string (`accepted`).

A path is taken for the file that it leads to, symbolic links aside (`Socket.file`).
The files are in `SOCKET_DIR` and different from each other exactly if the ids lead
there (an id without a slash does), differ behind their last slash, and none is
`wpi-grpc` or another with `_notify` behind it (`Unambiguous`).
-/

namespace WPI.Driver

/-- `SOCKET_DIR`. -/
def socketDir : String := "/run/wpi/sockets"

/-- `sock_path` in `NodeStageWeight`. -/
def sockPath (effectiveBufferId : String) : String := Path.posixJoin socketDir (effectiveBufferId ++ ".sock")

/-- `notify_sock_path` in `NodeStageWeight`. -/
def notifySockPath (effectiveBufferId : String) : String :=
  Path.posixJoin socketDir (effectiveBufferId ++ "_notify.sock")

/-- The path that `serve` gives to gRPC. -/
def grpcSockPath : String := "/run/wpi/sockets/wpi-grpc.sock"

/-- The server to which a socket belongs. -/
inductive Socket
  | grpc
  | fd (id : String)
  | notify (id : String)
deriving DecidableEq, Repr

def Socket.path : Socket → String
  | .grpc => grpcSockPath
  | .fd id => sockPath id
  | .notify id => notifySockPath id

/-- The file that the path leads to. -/
def Socket.file (s : Socket) : List (List Char) := Path.elems s.path.toList

/-- The sockets of the driver and of the buffers with these ids. -/
def sockets (ids : Set String) : Set Socket :=
  {s | s = .grpc ∨ ∃ id ∈ ids, s = .fd id ∨ s = .notify id}

/-- The sockets that exist, each with the server that bound it. -/
abbrev Files := List (List Char) → Option Socket

/-- The start of a server: what stands at its path is removed, and the socket bound. -/
def startServer (fs : Files) (s : Socket) : Files :=
  let fs := if (fs s.file).isSome then Function.update fs s.file none else fs
  Function.update fs s.file (some s)

/-- The sockets of a node are apart: each is in `SOCKET_DIR` itself, no two share a
path, and whatever servers are started, in any order, each one that was has its own
socket in the end. -/
structure Apart (ids : Set String) : Prop where
  children : ∀ s ∈ sockets ids, ∃ name, s.file = Path.elems socketDir.toList ++ [name]
  distinct : Set.InjOn Socket.file (sockets ids)
  kept : ∀ (fs : Files) (starts : List Socket), (∀ s ∈ starts, s ∈ sockets ids) →
    ∀ s ∈ starts, (starts.foldl startServer fs) s.file = some s

/-- The ids lead into `SOCKET_DIR`, under names of their own. -/
structure Unambiguous (ids : Set String) : Prop where
  home : ∀ id ∈ ids, Path.elems (Path.posixJoin socketDir (String.ofList (Path.dirName id.toList))).toList =
    Path.elems socketDir.toList
  names : Set.InjOn (fun id : String => Path.baseName id.toList) ids
  notGrpc : ∀ id ∈ ids, Path.baseName id.toList ≠ "wpi-grpc".toList
  notNotify : ∀ a ∈ ids, ∀ b ∈ ids,
    Path.baseName b.toList ≠ Path.baseName a.toList ++ "_notify".toList

/-- An id for which `NodeStageWeight` comes to start the servers. -/
def Accepted (id : String) : Prop :=
  ∃ cfg req ans d, req.effectiveBufferId = id ∧ (nodeStageWeight cfg req ans d).1 = .ok () ∧
    id ∈ (nodeStageWeight cfg req ans d).2.fdServers

/-! ## Files -/

/-- The name of a socket, up to `.sock`. -/
def Socket.stem : Socket → List Char
  | .grpc => "wpi-grpc".toList
  | .fd id => Path.baseName id.toList
  | .notify id => Path.baseName id.toList ++ "_notify".toList

theorem Socket.stem_fd (id : String) : (fd id).stem = Path.baseName id.toList := rfl

theorem Socket.stem_notify (id : String) :
    (notify id).stem = Path.baseName id.toList ++ "_notify".toList := rfl

/-- Where the socket stands. -/
def Socket.dir : Socket → List (List Char)
  | .grpc => Path.elems socketDir.toList
  | .fd id => Path.elems (Path.posixJoin socketDir (String.ofList (Path.dirName id.toList))).toList
  | .notify id => Path.elems (Path.posixJoin socketDir (String.ofList (Path.dirName id.toList))).toList

theorem elems_posixJoin_socketDir (id suffix : String) (hlen : 2 < suffix.toList.length)
    (hs : '/' ∉ suffix.toList) : Path.elems (Path.posixJoin socketDir (id ++ suffix)).toList =
      Path.elems (Path.posixJoin socketDir (String.ofList (Path.dirName id.toList))).toList ++
        [Path.baseName id.toList ++ suffix.toList] := by
  refine Path.elems_posixJoin_append (by decide) (by decide) id suffix (Path.isName_of_length ?_ ?_)
  · rw [List.length_append]
    omega
  · rw [List.mem_append, not_or]
    exact ⟨Path.no_slash_baseName _, hs⟩

theorem Socket.file_eq (s : Socket) : s.file = s.dir ++ [s.stem ++ ".sock".toList] := by
  cases s with
  | grpc =>
    have hpath : grpcSockPath.toList = socketDir.toList ++ '/' :: "wpi-grpc.sock".toList := by decide
    have hname : Path.IsName "wpi-grpc.sock".toList := Path.isName_of_length (by decide) (by decide)
    have hstem : stem .grpc ++ ".sock".toList = "wpi-grpc.sock".toList := by decide
    rw [hstem, file, path, hpath, Path.elems_slash_name hname, Path.elems_append_slash (by decide), dir]
  | fd id =>
    rw [file, path, dir, stem_fd, sockPath]
    exact elems_posixJoin_socketDir id ".sock" (by decide) (by decide)
  | notify id =>
    have hsuffix : "_notify".toList ++ ".sock".toList = "_notify.sock".toList := by decide
    rw [file, path, dir, stem_notify, notifySockPath, List.append_assoc, hsuffix]
    exact elems_posixJoin_socketDir id "_notify.sock" (by decide) (by decide)

theorem Socket.file_inj_iff {s t : Socket} : s.file = t.file ↔ s.dir = t.dir ∧ s.stem = t.stem := by
  rw [file_eq, file_eq]
  constructor
  · intro h
    obtain ⟨hdir, hstem⟩ := List.append_inj' h rfl
    exact ⟨hdir, List.append_cancel_right (List.cons.inj hstem).1⟩
  · rintro ⟨hdir, hstem⟩
    rw [hdir, hstem]

theorem Socket.child_iff {s : Socket} :
    (∃ name, s.file = Path.elems socketDir.toList ++ [name]) ↔ s.dir = Path.elems socketDir.toList := by
  rw [file_eq]
  constructor
  · rintro ⟨name, h⟩
    exact (List.append_inj' h rfl).1
  · intro h
    exact ⟨_, by rw [h]⟩

/-! ## Starting servers -/

theorem startServer_file (fs : Files) (s : Socket) : startServer fs s s.file = some s :=
  Function.update_self _ _ _

theorem startServer_of_ne {fs : Files} {s : Socket} {f : List (List Char)} (h : f ≠ s.file) :
    startServer fs s f = fs f := by
  rw [startServer, Function.update_of_ne h]
  split
  · exact Function.update_of_ne h _ _
  · rfl

/-- A run of starts, none of which shares the file of `s` with it, leaves the socket. -/
theorem foldl_startServer {ids : Set String} (hinj : Set.InjOn Socket.file (sockets ids)) {s : Socket}
    (hs : s ∈ sockets ids) {starts : List Socket} (hstarts : ∀ t ∈ starts, t ∈ sockets ids) {fs : Files}
    (h : s ∈ starts ∨ fs s.file = some s) : (starts.foldl startServer fs) s.file = some s := by
  induction starts generalizing fs with
  | nil => simpa using h
  | cons t starts ih =>
    rw [List.foldl_cons]
    apply ih fun u hu => hstarts u (List.mem_cons_of_mem _ hu)
    by_cases hst : s.file = t.file
    · have ht : t = s := (hinj hs (hstarts t List.mem_cons_self) hst).symm
      exact .inr (ht ▸ startServer_file fs t)
    · rcases h with h | h
      · rcases List.mem_cons.mp h with rfl | h
        · exact absurd rfl hst
        · exact .inl h
      · exact .inr (by rw [startServer_of_ne hst, h])

/-! ## Names -/

theorem grpc_mem_sockets (ids : Set String) : Socket.grpc ∈ sockets ids := .inl rfl

theorem fd_mem_sockets {ids : Set String} {id : String} (h : id ∈ ids) : Socket.fd id ∈ sockets ids :=
  .inr ⟨id, h, .inl rfl⟩

theorem notify_mem_sockets {ids : Set String} {id : String} (h : id ∈ ids) :
    Socket.notify id ∈ sockets ids :=
  .inr ⟨id, h, .inr rfl⟩

/-- The two ends of the names differ. -/
theorem append_notify_ne_grpc (l : List Char) : l ++ "_notify".toList ≠ "wpi-grpc".toList := fun h => by
  have hlast := congrArg List.getLast? h
  rw [List.getLast?_append, show "_notify".toList.getLast? = some 'y' from rfl, Option.some_or] at hlast
  exact absurd hlast (by decide)

theorem Unambiguous.dir_eq {ids : Set String} (h : Unambiguous ids) {s : Socket} (hs : s ∈ sockets ids) :
    s.dir = Path.elems socketDir.toList := by
  obtain rfl | ⟨id, hid, rfl | rfl⟩ := hs
  · rfl
  · exact h.home id hid
  · exact h.home id hid

theorem Unambiguous.eq_of_stem_eq {ids : Set String} (h : Unambiguous ids) {s t : Socket}
    (hs : s ∈ sockets ids) (ht : t ∈ sockets ids) (hstem : s.stem = t.stem) : s = t := by
  obtain rfl | ⟨a, ha, rfl | rfl⟩ := hs <;> obtain rfl | ⟨b, hb, rfl | rfl⟩ := ht
  · rfl
  · exact absurd hstem.symm (h.notGrpc b hb)
  · exact absurd hstem.symm (append_notify_ne_grpc _)
  · exact absurd hstem (h.notGrpc a ha)
  · rw [h.names ha hb hstem]
  · exact absurd hstem (h.notNotify b hb a ha)
  · exact absurd hstem (append_notify_ne_grpc _)
  · exact absurd hstem.symm (h.notNotify a ha b hb)
  · rw [h.names ha hb (List.append_cancel_right hstem)]

theorem Apart.unambiguous {ids : Set String} (h : Apart ids) : Unambiguous ids := by
  have hdir : ∀ s ∈ sockets ids, s.dir = Path.elems socketDir.toList := fun s hs =>
    Socket.child_iff.mp (h.children s hs)
  -- In one directory, two sockets with one name are one.
  have heq : ∀ s ∈ sockets ids, ∀ t ∈ sockets ids, s.stem = t.stem → s = t := fun s hs t ht hstem =>
    h.distinct hs ht (Socket.file_inj_iff.mpr ⟨(hdir s hs).trans (hdir t ht).symm, hstem⟩)
  constructor
  · intro id hid
    have := hdir _ (fd_mem_sockets hid)
    rwa [Socket.dir] at this
  · intro a ha b hb h
    have := heq _ (fd_mem_sockets ha) _ (fd_mem_sockets hb) h
    simpa using this
  · intro id hid h
    have := heq _ (fd_mem_sockets hid) _ (grpc_mem_sockets ids) h
    simp at this
  · intro a ha b hb h
    have := heq _ (fd_mem_sockets hb) _ (notify_mem_sockets ha) h
    simp at this

/-! ## The sockets of a set of buffers -/

/-- `NodeStageWeight` does not look at the id. -/
theorem accepted (id : String) : Accepted id := by
  have heff : NodeStageWeightRequest.effectiveBufferId ⟨"c", id, "", 4, -1, 0⟩ = id :=
    effectiveBufferId_whole (b := id) (i := -1) (n := 0) (by decide)
  refine ⟨⟨true, true⟩, ⟨"c", id, "", 4, -1, 0⟩, ⟨none, none, ⟨none, 2, 4096⟩, true, none, none, none⟩, .init,
    heff, rfl, ?_⟩
  show id ∈ [NodeStageWeightRequest.effectiveBufferId ⟨"c", id, "", 4, -1, 0⟩]
  rw [heff]
  exact List.mem_singleton_self id

/-- The sockets of the buffers and that of the driver are in `SOCKET_DIR`, have paths
of their own, and are kept by the starts of all other servers, if and only if the ids
lead into `SOCKET_DIR`, under names that are neither shared, nor the driver's, nor
those of another's notify socket. -/
theorem apart_iff_unambiguous (ids : Set String) : Apart ids ↔ Unambiguous ids := by
  constructor
  · exact Apart.unambiguous
  · intro h
    have hinj : Set.InjOn Socket.file (sockets ids) := fun s hs t ht hfile =>
      h.eq_of_stem_eq hs ht (Socket.file_inj_iff.mp hfile).2
    constructor
    · intro s hs
      exact Socket.child_iff.mpr (h.dir_eq hs)
    · exact hinj
    · intro fs starts hstarts s hs
      exact foldl_startServer hinj (hstarts s hs) hstarts (.inl hs)

/-- Ids without a slash, as the names of Kubernetes and the keys of their shards are. -/
theorem unambiguous_iff {ids : Set String} (hslash : ∀ id ∈ ids, '/' ∉ id.toList) :
    Unambiguous ids ↔ "wpi-grpc" ∉ ids ∧ ∀ a ∈ ids, a ++ "_notify" ∉ ids := by
  have hbase : ∀ id ∈ ids, Path.baseName id.toList = id.toList := fun id hid =>
    Path.baseName_eq_self (hslash id hid)
  constructor
  · intro h
    constructor
    · intro hgrpc
      exact h.notGrpc _ hgrpc (hbase _ hgrpc)
    · intro a ha hnotify
      refine h.notNotify a ha _ hnotify ?_
      rw [hbase a ha, hbase _ hnotify, String.toList_append]
  · rintro ⟨hgrpc, hnotify⟩
    constructor
    · intro id hid
      rw [Path.dirName_eq_nil (hslash id hid)]
      have hdir : (Path.posixJoin socketDir (String.ofList [])).toList = socketDir.toList ++ ['/'] := by
        decide
      rw [hdir, Path.elems_append_slash (by decide)]
    · intro a ha b hb hab
      simp only [hbase a ha, hbase b hb] at hab
      exact String.toList_injective hab
    · intro id hid he
      rw [hbase id hid] at he
      exact hgrpc (String.toList_injective he ▸ hid)
    · intro a ha b hb he
      rw [hbase a ha, hbase b hb, ← String.toList_append] at he
      exact hnotify a ha (String.toList_injective he ▸ hb)

/-- A buffer with the name of the driver's socket. -/
theorem not_apart_wpi_grpc : ¬∀ ids : Set String, (∀ id ∈ ids, Accepted id) → Apart ids := fun hall => by
  have h := hall {"wpi-grpc"} fun id _ => accepted id
  have hslash : ∀ id ∈ ({"wpi-grpc"} : Set String), '/' ∉ id.toList := by
    rintro id rfl
    decide
  exact ((unambiguous_iff hslash).mp h.unambiguous).1 rfl

end WPI.Driver
