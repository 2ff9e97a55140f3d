import PhantoWD.PolicyOrder
import PhantoWD.UnixIdentity

/-!
From an accepted policy the Samba sections, the NFS exports table and the list of open
requirements are rendered. Every collection is sorted by its key before it is written.
-/
namespace ServicePreview

open GoText GoJson ShareConfig KeyedLists PolicyOrder
open UnixIdentity (bytesLe)
open NfsConfig (Netip Client Export Policy checkClient ClientsApart ExportGood PolicySound
  policy_validate_iff)

/-- `slices.SortFunc` with `strings.Compare` of the keys. -/
abbrev Sorter := SortFunc fun a b : Bytes => bytesLe a b = true

def Sorter.simple : Sorter := .insertion _ UnixIdentity.bytesLe_total
  fun _ _ _ => UnixIdentity.bytesLe_trans

def Sorter.strings (s : Sorter) (l : List Bytes) : List Bytes := s.run id l

section Sorting

variable (s s' : Sorter)

theorem sort_congr {α : Type} {key : α → Bytes} {l l' : List α} (hp : l.Perm l')
    (hkey : ∀ a ∈ l, ∀ b ∈ l, key a = key b → a = b) : s.run key l = s'.run key l' :=
  s.run_congr s' (fun _ _ => UnixIdentity.bytesLe_antisymm) hp hkey

theorem sort_strings {l l' : List Bytes} (hp : l.Perm l') : s.strings l = s'.strings l' :=
  sort_congr s s' hp fun _ _ _ _ h => h

theorem sort_keyed {α : Type} {key : α → Bytes} {l l' : List α} (hp : l.Perm l')
    (hn : (l.map key).Nodup) : s.run key l = s'.run key l' :=
  sort_congr s s' hp fun _ ha _ hb h => List.inj_on_of_nodup_map hn ha hb h

end Sorting

variable {s s' : Sorter}

structure SharePreview where
  id : Bytes
  name : Bytes
  volumeID : Bytes
  path : Bytes
  readOnly : List Bytes
  readWrite : List Bytes
  deriving DecidableEq

def userName (c : Config) (id : Bytes) : Bytes :=
  ((lookup User.id c.users.items id).map User.name).getD []

def Grant.writes (g : Grant) : Bool := g.access == ascii "rw"

def sharePreview (s : Sorter) (c : Config) (share : Share) : SharePreview where
  id := share.id
  name := share.name
  volumeID := share.volumeID
  path := resolved share
  readOnly := s.strings ((share.grants.items.filter fun g => !Grant.writes g).map
    fun g => userName c g.userID)
  readWrite := s.strings ((share.grants.items.filter Grant.writes).map
    fun g => userName c g.userID)

def words (l : List Bytes) : Bytes := [0x20].intercalate l

def SharePreview.section (s : Sorter) (p : SharePreview) : Bytes :=
  ascii "\n[" ++ p.name ++ ascii "]\n    path = " ++ p.path ++
    ascii "\n    guest ok = no\n    guest only = no\n    read only = yes\n    browseable = yes\n" ++
    ascii "    valid users = " ++ words (s.strings (p.readOnly ++ p.readWrite)) ++
    ascii "\n    read list = " ++ words p.readOnly ++
    ascii "\n    write list = " ++ words p.readWrite ++
    ascii "\n    wide links = no\n    follow symlinks = no\n    create mask = 0660\n" ++
    ascii "    directory mask = 0770\n"

def sections (s : Sorter) (c : Config) : Bytes :=
  ascii "# PhantoWD candidate share sections; not an activation authorization.\n" ++
    ascii "# Verify filesystem identity, mount containment, accounts and POSIX ACLs first.\n" ++
    (s.run SharePreview.id (c.shares.items.map (sharePreview s c))).flatMap
      (SharePreview.section s)

section Samba

variable {c d : Config}

theorem userName_congr (h : SharesReordered c d) (hc : Sound c) (id : Bytes) :
    userName c id = userName d id := by
  unfold userName
  rw [lookup_perm h.users.items hc.userIDs]

theorem sharePreview_congr (h : SharesReordered c d) (hc : Sound c) {x y : Share}
    (hxy : SameShare x y) : sharePreview s c x = sharePreview s' d y := by
  have hnames : ∀ p : Grant → Bool,
      ((x.grants.items.filter p).map fun g => userName c g.userID).Perm
        ((y.grants.items.filter p).map fun g => userName d g.userID) := by
    intro p
    have hfun : (fun g : Grant => userName c g.userID) = fun g => userName d g.userID := by
      funext g
      exact userName_congr h hc g.userID
    rw [hfun]
    exact (hxy.grants.items.filter p).map _
  unfold sharePreview
  rw [hxy.id, hxy.name, hxy.volumeID, resolved, resolved, hxy.volumeID, hxy.relativePath,
    sort_strings s s' (hnames _), sort_strings s s' (hnames _)]

theorem section_congr (p : SharePreview) : p.section s = p.section s' := by
  unfold SharePreview.section
  rw [sort_strings s s' (.refl (p.readOnly ++ p.readWrite))]

theorem sections_congr (h : SharesReordered c d) (hc : Sound c) :
    sections s c = sections s' d := by
  have hperm : (c.shares.items.map (sharePreview s c)).Perm
      (d.shares.items.map (sharePreview s' d)) :=
    h.shares.items.map_perm fun x y hxy => sharePreview_congr h hc hxy
  have hids : ((c.shares.items.map (sharePreview s c)).map SharePreview.id).Nodup := by
    rw [List.map_map]
    exact hc.shareIDs
  have hsection : SharePreview.section s = SharePreview.section s' := funext section_congr
  unfold sections
  rw [sort_keyed s s' hperm hids, hsection]

end Samba

structure ExportPreview where
  id : Bytes
  volumeID : Bytes
  filesystemUUID : Bytes
  mountPath : Bytes
  path : Bytes
  clients : List Client
  deriving DecidableEq

def sortClients (s : Sorter) (e : Export) : List Client := s.run Client.network e.clients.items

def exportPreview (s : Sorter) (c : Config) (e : Export) : ExportPreview where
  id := e.id
  volumeID := e.volumeID
  filesystemUUID := ((lookup Volume.id c.volumes.items e.volumeID).map
    Volume.filesystemUUID).getD []
  mountPath := SmbConfig.mountPath e.volumeID
  path := joinRooted (SmbConfig.mountPath e.volumeID) e.relativePath
  clients := sortClients s e

def octal (b : UInt8) : Bytes :=
  [0x5c, 0x30 + b / 64, 0x30 + b / 8 % 8, 0x30 + b % 8]

def escapePath (path : Bytes) : Bytes := path.flatMap fun b =>
  if b = 0x20 ∨ b = 0x22 ∨ b = 0x23 ∨ b = 0x5c then octal b else [b]

def clientEntry (e : ExportPreview) (c : Client) : Bytes :=
  ascii " " ++ c.network ++ ascii "(" ++ c.access ++ ascii ",sync,secure,root_squash" ++
    (if c.squash = ascii "all" then ascii ",all_squash" else []) ++ ascii "," ++
    (if e.path = e.mountPath then ascii "no_subtree_check" else ascii "subtree_check") ++
    ascii ",nocrossmnt,sec=" ++ c.security ++
    ascii ",anonuid=" ++ formatUint c.anonymousUID.toNat ++
    ascii ",anongid=" ++ formatUint c.anonymousGID.toNat ++
    ascii ",fsid=" ++ e.id ++ ascii ",mountpoint=" ++ e.mountPath ++ ascii ")"

def ExportPreview.line (e : ExportPreview) : Bytes :=
  escapePath e.path ++ e.clients.flatMap (clientEntry e) ++ ascii "\n"

def exportPreviews (s : Sorter) (p : Policy) (c : Config) : List ExportPreview :=
  s.run ExportPreview.id (p.exports.items.map (exportPreview s c))

def table (s : Sorter) (p : Policy) (c : Config) : Bytes :=
  ascii "# PhantoWD candidate exports; verify identities, containment and credentials " ++
    ascii "before activation.\n" ++ (exportPreviews s p c).flatMap ExportPreview.line

def usesAuthSys (p : Policy) : Bool :=
  p.exports.items.any fun e => e.clients.items.any fun c => c.security == ascii "sys"

def requiresKerberos (p : Policy) : Bool :=
  p.exports.items.any fun e => e.clients.items.any fun c => c.security != ascii "sys"

section Nfs

variable {netip : Netip} {p q : Policy} {c d : Config}

theorem networks_inj (hnet : NetworksOverlap netip) {known : List Bytes} {e : Export}
    (he : ExportGood netip known e) {x y : Client} (hx : x ∈ e.clients.items)
    (hy : y ∈ e.clients.items) (heq : x.network = y.network) : x = y := by
  by_contra hne
  have hsymm : Std.Symm (ClientsApart netip) := ⟨fun a b => ClientsApart.symm hnet⟩
  have hapart := he.networks.forall hx hy hne
  obtain ⟨a, ha⟩ := he.clients x hx
  obtain ⟨b, hb⟩ := he.clients y hy
  -- one spelling parses to one prefix, and a valid prefix meets itself
  obtain ⟨⟨hpa, hvalid, -⟩, -⟩ := NfsConfig.checkClient_some ha
  obtain ⟨⟨hpb, -⟩, -⟩ := NfsConfig.checkClient_some hb
  rw [heq, hpb] at hpa
  have hab := hapart a b ha hb
  rw [← Option.some.inj hpa, hnet.self] at hab
  · cases hab
  · rw [Option.some.inj hpa]
    exact hvalid

theorem sortClients_congr (hnet : NetworksOverlap netip) {known : List Bytes} {e f : Export}
    (he : ExportGood netip known e) (h : SameExport e f) : sortClients s e = sortClients s' f :=
  sort_congr s s' h.clients.items fun _ hx _ hy heq => networks_inj hnet he hx hy heq

theorem exportPreview_congr (hnet : NetworksOverlap netip) (h : SharesReordered c d)
    (hc : Sound c) {known : List Bytes} {e f : Export} (he : ExportGood netip known e)
    (hef : SameExport e f) : exportPreview s c e = exportPreview s' d f := by
  unfold exportPreview
  rw [hef.id, hef.volumeID, hef.relativePath, lookup_perm h.volumes.items hc.volumeIDs,
    sortClients_congr hnet he hef]

theorem export_ids (hp : PolicySound netip p c) : (p.exports.items.map Export.id).Nodup := by
  rw [List.Nodup, List.pairwise_map]
  exact hp.apart.imp fun hap => hap.1

theorem exportPreviews_congr (hnet : NetworksOverlap netip) (h : SharesReordered c d)
    (hpq : PolicyReordered p q) (hc : Sound c) (hp : PolicySound netip p c) :
    exportPreviews s p c = exportPreviews s' q d := by
  have hperm : (p.exports.items.map (exportPreview s c)).Perm
      (q.exports.items.map (exportPreview s' d)) :=
    hpq.exports.items.map_perm_of_mem fun e he f hef =>
      exportPreview_congr hnet h hc (hp.exports e he) hef
  have hids : ((p.exports.items.map (exportPreview s c)).map ExportPreview.id).Nodup := by
    rw [List.map_map]
    exact export_ids hp
  exact sort_keyed s s' hperm hids

theorem table_congr (hnet : NetworksOverlap netip) (h : SharesReordered c d)
    (hpq : PolicyReordered p q) (hc : Sound c) (hp : PolicySound netip p c) :
    table s p c = table s' q d := by
  unfold table
  rw [exportPreviews_congr hnet h hpq hc hp]

theorem any_client_congr (hpq : PolicyReordered p q) (P : Client → Bool) :
    (p.exports.items.any fun e => e.clients.items.any P) =
      q.exports.items.any fun e => e.clients.items.any P := by
  have hone : ∀ {p q : Policy}, PolicyReordered p q →
      (p.exports.items.any fun e => e.clients.items.any P) = true →
      (q.exports.items.any fun e => e.clients.items.any P) = true := by
    intro p q hpq hany
    simp only [List.any_eq_true] at hany ⊢
    obtain ⟨e, he, c, hc, hP⟩ := hany
    obtain ⟨f, hf, hfe⟩ := hpq.symm.exports.items.exists_left he
    exact ⟨f, hf, c, hfe.clients.items.mem_iff.mpr hc, hP⟩
  exact Bool.eq_iff_iff.mpr ⟨hone hpq, hone hpq.symm⟩

end Nfs

def configuredPathsOverlap (first second : Bytes) : Bool :=
  let first := joinRooted (ascii "/") first
  let second := joinRooted (ascii "/") second
  first == second || first == ascii "/" || second == ascii "/" || below first second ||
    below second first

def configuredCrossProtocolPathOverlap (shares : Config) (nfs : Policy) : Bool :=
  shares.shares.items.any fun share => nfs.exports.items.any fun e =>
    share.volumeID == e.volumeID && configuredPathsOverlap share.relativePath e.relativePath

def requirements (shares : Config) (nfs : Policy) : List Bytes :=
  [ascii "runtime_volume_identity", ascii "path_and_mount_containment",
    ascii "unix_accounts_and_effective_access", ascii "durable_configuration",
    ascii "service_activation_lifecycle"] ++
  (if shares.shares.items ≠ [] ∧ nfs.exports.items ≠ [] then
    ascii "cross_protocol_access_review" ::
      (if configuredCrossProtocolPathOverlap shares nfs then [ascii "cross_protocol_path_overlap"]
      else [])
  else []) ++
  (if usesAuthSys nfs then [ascii "auth_sys_network_trust"] else []) ++
  (if requiresKerberos nfs then [ascii "kerberos_provisioning"] else [])

theorem crossProtocol_congr {c d : Config} {p q : Policy} (h : SharesReordered c d)
    (hpq : PolicyReordered p q) :
    configuredCrossProtocolPathOverlap c p = configuredCrossProtocolPathOverlap d q := by
  have hone : ∀ {c d : Config} {p q : Policy}, SharesReordered c d → PolicyReordered p q →
      configuredCrossProtocolPathOverlap c p = true →
      configuredCrossProtocolPathOverlap d q = true := by
    intro c d p q h hpq hany
    simp only [configuredCrossProtocolPathOverlap, List.any_eq_true] at hany ⊢
    obtain ⟨x, hx, e, he, hP⟩ := hany
    obtain ⟨y, hy, hyx⟩ := h.symm.shares.items.exists_left hx
    obtain ⟨f, hf, hfe⟩ := hpq.symm.exports.items.exists_left he
    refine ⟨y, hy, f, hf, ?_⟩
    rw [hyx.volumeID, hyx.relativePath, hfe.volumeID, hfe.relativePath]
    exact hP
  exact Bool.eq_iff_iff.mpr ⟨hone h hpq, hone h.symm hpq.symm⟩

theorem requirements_congr {c d : Config} {p q : Policy} (h : SharesReordered c d)
    (hpq : PolicyReordered p q) : requirements c p = requirements d q := by
  have hshares : c.shares.items = [] ↔ d.shares.items = [] := by
    rw [← List.length_eq_zero_iff, h.shares.items.length_eq, List.length_eq_zero_iff]
  have hexports : p.exports.items = [] ↔ q.exports.items = [] := by
    rw [← List.length_eq_zero_iff, hpq.exports.items.length_eq, List.length_eq_zero_iff]
  unfold requirements usesAuthSys requiresKerberos
  simp only [crossProtocol_congr h hpq, any_client_congr hpq, ne_eq, hshares, hexports]

end ServicePreview
