import Ext4.Alloc.Frees
import Ext4.Alloc.Seal
import Ext4.Dir.Lookup
import Ext4.Dir.Refine
import Ext4.Extent.Conserve
import Ext4.Inode.Geometry
import Ext4.Inode.Lossless
import Ext4.Journal.Capacity
import Ext4.Journal.Credential
import Ext4.Journal.Load
import Ext4.Journal.Restart
import Ext4.Journal.Superblock
import Ext4.Journal.Sync
import Ext4.Journal.Termination
import Ext4.Mount.Credits
import Ext4.Mount.Links
import Ext4.Mount.Punch
import Ext4.Mount.Scanned
import Ext4.Mount.Verify
import Ext4.Mount.Write
