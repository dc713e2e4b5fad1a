import Clks.Text.Agreement
import Clks.Font.TtfDrawing
import Clks.Tty.Resolution
import Clks.Tty.Movement
import Clks.Usc.Reloading
import Clks.User.Digest
import Clks.User.Policy
import Clks.Disk.Structure
import Clks.Disk.Aliasing
import Clks.Disk.Visits
import Clks.Disk.Allocation
import Clks.Net.Progress
import Clks.Net.Accept
import Clks.Net.Packets
import Clks.Exec.Counting
import Clks.Fs.Views
import Clks.Exec.FileWrites
import Clks.Exec.Zombies
import Clks.Memory.Allocating
import Clks.Memory.Accessible
import Clks.Memory.Destroying
import Clks.Exec.Searching
import Clks.Exec.Sleeping
import Clks.Net.Neighbours
import Clks.Exec.PtyChannels
import Clks.Elf.Loading
import Clks.Path.Canonical
import Clks.Tar.Walk
import Clks.Log.Retained
import Clks.Driver.Reuse
import Clks.Wm.OnScreen
import Clks.Input.Mouse
import Clks.Wm.EventQueue
import Clks.Video.Blit
import Clks.Input.Modifiers
import Clks.Input.Offers
import Clks.Text.KeyValues
import Clks.Font.PsfTable
import Clks.Tty.Searching
