import Cineraria.Video.TmdsDisparity
import Cineraria.Video.TmdsDecode
import Cineraria.Video.PdiffTransmitter
import Cineraria.Pixel.PixelSimd
import Cineraria.Pixel.Streams
import Cineraria.Pixel.Packing
import Cineraria.Draw.Line
import Cineraria.Draw.Box
import Cineraria.Draw.Circle
import Cineraria.Draw.Boxfill
import Cineraria.Draw.PutstrFont
import Cineraria.Draw.Drawwave
import Cineraria.Draw.Putdec
import Cineraria.Draw.PutcharFont
import Cineraria.Audio.Interpolation
import Cineraria.Audio.Headroom
import Cineraria.Mmcfs.AccessMode
import Cineraria.Player.ShortRead
import Cineraria.Mmc.DataBlock
import Cineraria.Mmc.WriteProtect
import Cineraria.Mmcfs.FreeSlots
import Cineraria.Mmcfs.Append
import Cineraria.Mmcfs.Seek
import Cineraria.Mmc.SpiWaveform
import Cineraria.Mmc.Isolation
import Cineraria.Mmc.DoneFlag
import Cineraria.Mmc.ControlWrites
import Cineraria.Mmc.DmaCopy
import Cineraria.Vga.Burst
import Cineraria.Vga.Picture
import Cineraria.Vga.VsyncIrq
import Cineraria.Vga.Overrun
import Cineraria.Vga.VsyncCount
import Cineraria.Vga.DataCount
import Cineraria.Player.FatFsExclusion
import Cineraria.Player.FifoRoom
import Cineraria.Player.WavHeader
import Cineraria.Player.Disp7seg
import Cineraria.Player.GetFileName
import Cineraria.Bmp.Damaged
import Cineraria.Fat.WindowRuns
import Cineraria.Fat.SessionRuns
import Cineraria.Fat.DirRead
import Cineraria.Fat.DirRemove
import Cineraria.Video.DviLink
import Cineraria.Vga.Frame
