import FreeSensePorts.CheckReload.Events
import FreeSensePorts.CloudInit.Histories
import FreeSensePorts.CloudInit.Writes
import FreeSensePorts.Filterdns.Locks
import FreeSensePorts.Repoc.Concurrent
import FreeSensePorts.Dhcpleases.Hosts
import FreeSensePorts.Repoc.Retained
import FreeSensePorts.Repoc.Twice
import FreeSensePorts.Voucher.Accepts
import FreeSensePorts.Filterdns.Tables
import FreeSensePorts.Filterdns.Union
import FreeSensePorts.Filterdns.Watch
import FreeSensePorts.Filterdns.Lexer
import FreeSensePorts.Fcgicli.Pairs
import FreeSensePorts.CheckReload.Lines
import FreeSensePorts.Fcgicli.Output
import FreeSensePorts.CheckReload.Replies
import FreeSensePorts.Dhcpleases.Domains
import FreeSensePorts.Dhcpleases.Times
import FreeSensePorts.CloudInit.Raises
import FreeSensePorts.CloudInit.Netplan
import FreeSensePorts.CloudInit.Readable
import FreeSensePorts.BootEnv.Prune
import FreeSensePorts.PhpModule.Limit
import FreeSensePorts.PhpModule.KillMask
import FreeSensePorts.PhpModule.KillSources
import FreeSensePorts.PhpModule.IfAddrs
import FreeSensePorts.Filterlog.Ip6OptsSafe
import FreeSensePorts.Filterlog.IcmpText
import FreeSensePorts.Filterlog.Ip6Chain
import FreeSensePorts.Filterlog.Captured
import FreeSensePorts.BootEnv.Verify
import FreeSensePorts.Filterdns.Mask
import FreeSensePorts.Repoc.Rows
import FreeSensePorts.Dhcpleases.Names
