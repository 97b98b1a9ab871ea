import RalinkSdk.Nvram.Crash
import RalinkSdk.Nvram.Processes
import RalinkSdk.Nvram.BlockParse
import RalinkSdk.Nvram.RenewImport
import RalinkSdk.Nvram.FlashOverlay
import RalinkSdk.BlockAck.Delivery
import RalinkSdk.BlockAck.Pool
import RalinkSdk.Dot1x.DaemonTimers
import RalinkSdk.Ccmp.SoftAes
import RalinkSdk.Dot1x.StaTableInv
import RalinkSdk.MacTab.TableInv
import RalinkSdk.RxData.Defragment
import RalinkSdk.Wpa.Unauthenticated
import RalinkSdk.Wpa.MasterKey
import RalinkSdk.Wpa.Agreement
import RalinkSdk.Firewall.Deletion
import RalinkSdk.Firewall.FilterForms
import RalinkSdk.Firewall.PortForwardForm
import RalinkSdk.HwNat.AclClassify
import RalinkSdk.HwNat.AclRules
import RalinkSdk.HwNat.PolicyDelete
import RalinkSdk.HwNat.PolicySyncInv
import RalinkSdk.HwNat.IpRange
import RalinkSdk.HwNat.KeepAliveInv
import RalinkSdk.Firewall.ShowFilter
import RalinkSdk.Goahead.CfgToHtml
import RalinkSdk.Crypt.KeyUnwrap
import RalinkSdk.Ccmp.Aes128
import RalinkSdk.Ccmp.CcmEncrypt
import RalinkSdk.Crypt.DiffieHellman
import RalinkSdk.BlockAck.ActionFrames
import RalinkSdk.Crypt.CbcBuffer
import RalinkSdk.Crypt.Hash
import RalinkSdk.RxData.SoftDecrypt
import RalinkSdk.IgmpSnoop.Joins
import RalinkSdk.IgmpSnoop.Reports
import RalinkSdk.Mat.PppoeEcho
import RalinkSdk.Mat.Icmpv6Rewrite
import RalinkSdk.Radius.Bounds
import RalinkSdk.Dot1x.ForgedReplies
import RalinkSdk.Dot1x.EapolReceive
import RalinkSdk.Dot1x.EapolEnds
import RalinkSdk.Spi.AddressMode
import RalinkSdk.Wps.SetupLock
import RalinkSdk.Wps.Credential
import RalinkSdk.Wps.KeyWrap
import RalinkSdk.Nand.WriteFrame
import RalinkSdk.Nand.OobAuto
import RalinkSdk.Raeth.Mcast
import RalinkSdk.Wpa.Countermeasures
import RalinkSdk.Wpa.PmkidCache
import RalinkSdk.Wpa.Downgrade
import RalinkSdk.Wpa.AssocRsnIe
import RalinkSdk.RxData.RalinkAggregate
import RalinkSdk.RxData.Deaggregate
