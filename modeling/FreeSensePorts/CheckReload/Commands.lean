import FreeSensePorts.Core.Text

/-!
# The command table of `check_reload_status`

`server.h`: a tree of keywords whose leaves say which script to run, with which parameter string,
and how.  `AGGREGATE` commands are folded together while one is pending, and `FCGICMD` commands are
sent to php-fpm instead of being forked.  The `NULLOPT` row of a level is the end of the list; the
`enum actions` value of a row is read only to find that end and is left out.
-/

namespace FreeSense.CheckReload

inductive ArgType
  | NON | COMPOUND | ADDRESS | PREFIX | STRING | INTEGER | IFNAME
  deriving DecidableEq, Repr

/-- `struct run`, with its two flag bits as Booleans. -/
structure RunSpec where
  command : String
  params : Option String
  syslog : String
  aggregate : Bool
  fcgicmd : Bool
  deriving DecidableEq, Repr

/-- A row of the table that runs something. -/
structure Leaf where
  type : ArgType
  keyword : String
  cmd : RunSpec
  deriving DecidableEq, Repr

/-- `struct command`: a row either leads to another level or is a leaf. -/
inductive Command
  | level (type : ArgType) (keyword : String) (next : List Command)
  | leaf (leaf : Leaf)

/-- A leaf with both flags set. -/
def aggregated (type : ArgType) (keyword command : String) (params : Option String)
    (syslog : String) : Leaf :=
  ⟨type, keyword, ⟨command, params, syslog, true, true⟩⟩

/-- A leaf that is sent each time it is asked for. -/
def separate (type : ArgType) (keyword command : String) (params : Option String)
    (syslog : String) : Leaf :=
  ⟨type, keyword, ⟨command, params, syslog, false, true⟩⟩

def filterReload : Leaf :=
  aggregated .NON "reload" "/etc/rc.filter_configure_sync" none "Reloading filter"

def interfaceReload : Leaf :=
  aggregated .IFNAME "reload" "/etc/rc.interfaces_wan_configure" (some "interface=%s")
    "Configuring interface %s"

def cFilter : List Leaf :=
  [ filterReload
  , aggregated .NON "reconfigure" "/etc/rc.filter_configure_sync" none "Reloading filter"
  , aggregated .NON "restart" "/etc/rc.filter_configure_sync" none "Reloading filter"
  , aggregated .NON "sync" "/etc/rc.filter_synchronize" none "Syncing firewall" ]

def cInterface2 : List Leaf :=
  [ aggregated .NON "reload" "/etc/rc.reload_interfaces" none "Reloading interfaces"
  , separate .IFNAME "start" "/etc/rc.linkup" (some "action=start&interface=%s")
      "Linkup starting %s"
  , separate .IFNAME "stop" "/etc/rc.linkup" (some "action=stop&interface=%s")
      "Linkup starting %s" ]

def cService2 : List Leaf :=
  [ aggregated .NON "all" "/etc/rc.reload_all" none "Reloading all"
  , aggregated .NON "dns" "/etc/rc.resolv_conf_generate" none "Rewriting resolv.conf"
  , aggregated .STRING "ipsec" "/etc/rc.ipsec" (some "interface=%s") "Restarting IPsec tunnels"
  , aggregated .NON "ipsecdns" "/etc/rc.newipsecdns" none "Restarting IPsec tunnels"
  , aggregated .NON "routedns" "/etc/rc.newroutedns" none
      "Updating static routes based on hostnames"
  , aggregated .STRING "openvpn" "/etc/rc.openvpn" (some "interface=%s")
      "Restarting OpenVPN tunnels/interfaces"
  , aggregated .STRING "dyndns" "/etc/rc.dyndns.update" (some "dyndns=%s") "updating dyndns %s"
  , aggregated .NON "dyndnsall" "/etc/rc.dyndns.update" none "Updating all dyndns"
  , ⟨.NON, "ntpd", ⟨"/usr/bin/killall ntpd; /bin/sleep 3; " ++
      "/usr/local/sbin/ntpd -s -f /var/etc/ntpd.conf", none, "Starting nptd", true, false⟩⟩
  , separate .NON "packages" "/etc/rc.start_packages" none "Starting packages"
  , aggregated .NON "sshd" "/etc/sshd" none "starting sshd"
  , aggregated .NON "webgui" "/etc/rc.restart_webgui" none
      "webConfigurator restart in progress" ]

def cServiceSync : List Leaf :=
  [ aggregated .NON "vouchers" "/etc/rc.savevoucher" none "Synching vouchers"
  , aggregated .STRING "alias" "/etc/rc.update_urltables" (some "alias=%s")
      "Synching URL alias %s"
  , aggregated .NON "aliases" "/etc/rc.update_urltables" none "Synching URL aliases" ]

def cInterface : List Command :=
  [ .level .STRING "all" (cInterface2.map .leaf)
  , .leaf interfaceReload
  , .leaf (aggregated .IFNAME "reconfigure" "/etc/rc.interfaces_wan_configure"
      (some "interface=%s") "Configuring interface %s")
  , .leaf (aggregated .IFNAME "restart" "/etc/rc.interfaces_wan_configure"
      (some "interface=%s") "Configuring interface %s")
  , .leaf (separate .STRING "newip" "/etc/rc.newwanip" (some "interface=%s")
      "rc.newwanip starting %s")
  , .leaf (separate .STRING "newipv6" "/etc/rc.newwanipv6" (some "interface=%s")
      "rc.newwanipv6 starting %s")
  , .level .STRING "linkup" (cInterface2.map .leaf)
  , .leaf (aggregated .NON "sync" "/etc/rc.filter_configure_xmlrpc" none
      "Reloading filter_configure_xmlrpc")
  , .leaf (separate .IFNAME "carpmaster" "/etc/rc.carpmaster" (some "interface=%s")
      "Carp master event")
  , .leaf (separate .IFNAME "carpbackup" "/etc/rc.carpbackup" (some "interface=%s")
      "Carp backup event") ]

def cService : List Command :=
  [ .level .STRING "reload" (cService2.map .leaf)
  , .level .STRING "reconfigure" (cService2.map .leaf)
  , .level .STRING "restart" (cService2.map .leaf)
  , .level .STRING "sync" (cServiceSync.map .leaf) ]

def firstLevel : List Command :=
  [ .level .COMPOUND "filter" (cFilter.map .leaf)
  , .level .COMPOUND "interface" cInterface
  , .level .COMPOUND "service" cService ]

mutual

def Command.leaves : Command → List Leaf
  | .level _ _ next => levelLeaves next
  | .leaf l => [l]

def levelLeaves : List Command → List Leaf
  | [] => []
  | c :: cs => c.leaves ++ levelLeaves cs

end

def leaves : List Leaf := levelLeaves firstLevel

/-- **The flags belong to the script.**  Two rows with one script carry the same flags, so an entry
of the queue with the script of an `AGGREGATE` command was itself queued by one. -/
theorem leaves_flags : ∀ a ∈ leaves, ∀ b ∈ leaves, a.cmd.command = b.cmd.command →
    a.cmd.aggregate = b.cmd.aggregate ∧ a.cmd.fcgicmd = b.cmd.fcgicmd := by
  decide +kernel

/-- No leaf has the type of an inner row: `run_command` never meets its own "should never happen"
case. -/
theorem leaves_type : ∀ a ∈ leaves, a.type ≠ .COMPOUND := by
  decide +kernel

/-- Replace the first `%s` of a format by the argument, as `snprintf` with one argument does. -/
def expandFormat : Text → Text → Text
  | '%' :: 's' :: rest, arg => arg ++ rest
  | c :: rest, arg => c :: expandFormat rest arg
  | [], _ => []

def Leaf.expanded (leaf : Leaf) (argv : Text) : Text :=
  match leaf.cmd.params with
  | none => []
  | some format => expandFormat format.toList argv

end FreeSense.CheckReload
